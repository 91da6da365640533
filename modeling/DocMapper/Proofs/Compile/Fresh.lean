import DocMapper.Proofs.Compile.Placeholders
/-!
# The search for a free name

A search that goes on for as long as it meets taken names ends, since each number has a name of its
own and few names are taken. It ends at the least number from the counter on whose name is free, and
the counter then stands behind that number. What callers merge may take any names, but it never
moves the counter, so the numbers that are bound only ever grow.
-/

namespace DocMapper

namespace Registry

/-! ### The search without a bound -/

/-- The search from a number on: it ends at a free name, and goes on behind a taken one. -/
inductive Searches (stem : String) (params : Fields Value) : Nat → Nat → Prop where
  | free {index : Nat} (h : Fields.get? params (nameOf stem index) = none) :
      Searches stem params index index
  | taken {index found : Nat} {w : Value} (h : Fields.get? params (nameOf stem index) = some w)
      (hrest : Searches stem params (index + 1) found) : Searches stem params index found

section Searches

variable {stem : String} {params : Fields Value} {start found : Nat}

theorem Searches.le (h : Searches stem params start found) : start ≤ found := by
  induction h with
  | free _ => exact Nat.le_refl _
  | taken _ _ ih => exact Nat.le_of_succ_le ih

theorem Searches.get?_found (h : Searches stem params start found) :
    Fields.get? params (nameOf stem found) = none := by
  induction h with
  | free h => exact h
  | taken _ _ ih => exact ih

theorem Searches.le_of_free (h : Searches stem params start found) {index : Nat}
    (hstart : start ≤ index) (hfree : Fields.get? params (nameOf stem index) = none) :
    found ≤ index := by
  induction h with
  | free _ => exact hstart
  | @taken passed _ _ htaken _ ih =>
    rcases hstart.eq_or_lt with rfl | hlt
    · rw [hfree] at htaken
      cases htaken
    · exact ih hlt

theorem Searches.isLeast (h : Searches stem params start found) :
    IsLeast {index | start ≤ index ∧ Fields.get? params (nameOf stem index) = none} found :=
  ⟨⟨h.le, h.get?_found⟩, fun _ hindex => h.le_of_free hindex.1 hindex.2⟩

/-- A bounded search that ended at a free name did what the search without a bound does. -/
theorem searches_firstFree {fuel : Nat}
    (h : Fields.get? params (nameOf stem (firstFree stem params fuel start)) = none) :
    Searches stem params start (firstFree stem params fuel start) := by
  induction fuel generalizing start with
  | zero => exact .free h
  | succ fuel ih =>
    rw [firstFree] at h ⊢
    split at h
    · next htaken =>
      rw [if_pos htaken]
      obtain ⟨w, hw⟩ := Fields.has_eq_true_iff.mp htaken
      exact .taken hw (ih h)
    · next hfree =>
      rw [if_neg hfree]
      exact .free h

theorem firstFree_le (fuel : Nat) : firstFree stem params fuel start ≤ start + fuel := by
  induction fuel generalizing start with
  | zero => exact Nat.le_refl _
  | succ fuel ih =>
    rw [firstFree]
    split
    · exact ih.trans (by omega)
    · omega

end Searches

/-! ### The counter -/

/-- The number at which a search begins. -/
def counter (r : Registry) : Nat :=
  r.next?.getD r.params.length

theorem searches_nextIndex (r : Registry) : Searches r.stem r.params r.counter r.nextIndex :=
  searches_firstFree r.get?_nextIndex

theorem nextIndex_le (r : Registry) : r.nextIndex ≤ r.counter + r.params.length :=
  firstFree_le _

/-- After a binding the counter stands behind the number that was bound, whatever is merged. -/
theorem counter_foldl_merge (r : Registry) (v : Value) (maps : List (Fields Value)) :
    (maps.foldl merge (r.bind v).2).counter = r.nextIndex + 1 := by
  have hnext : ∀ r' : Registry, (maps.foldl merge r').next? = r'.next? := by
    induction maps with
    | nil => exact fun _ => rfl
    | cons params rest ih => exact fun r' => ih (r'.merge params)
  rw [counter, hnext]
  rfl

variable {stem : String} {r r' : Registry}

theorem Steps.stem_eq (h : r.Steps r') : r'.stem = r.stem := by
  induction h with
  | refl => rfl
  | merge _ _ ih => exact ih
  | bind _ _ ih => exact ih

/-- Without a binding so far the counter is the number of parameters. -/
theorem Steps.next?_eq_none (h : (ofStem stem).Steps r)
    (hunbound : ∀ name w, .bound name w ∉ r.history) : r.next? = none := by
  induction h with
  | refl => rfl
  | merge _ params ih =>
    exact ih fun name w hmem => hunbound name w (List.mem_append_left _ hmem)
  | @bind mid _ v _ =>
    exact absurd (List.mem_append_right _ (List.mem_singleton_self _))
      (hunbound (nameOf mid.stem mid.nextIndex) v)

/-- From one binding on the counter stays behind the number that was bound. -/
theorem Steps.le_next? {index : Nat} (h : r.Steps r') (hstart : ∃ n ∈ r.next?, index < n) :
    ∃ n ∈ r'.next?, index < n := by
  induction h with
  | refl => exact hstart
  | merge _ params ih => exact ih
  | @bind mid _ v ih =>
    obtain ⟨n, hn, hlt⟩ := ih
    have hcounter : mid.counter = n := by
      rw [counter, Option.mem_def.mp hn, Option.getD_some]
    have hle := hcounter ▸ mid.searches_nextIndex.le
    exact ⟨mid.nextIndex + 1, rfl, by omega⟩

/-- What is bound later has a greater number, whatever was merged in between. -/
theorem nextIndex_lt_of_steps {v : Value} (h : (r.bind v).2.Steps r') :
    r.nextIndex < r'.nextIndex := by
  obtain ⟨n, hn, hlt⟩ := h.le_next? ⟨r.nextIndex + 1, rfl, Nat.lt_succ_self _⟩
  have hcounter : r'.counter = n := by
    rw [counter, Option.mem_def.mp hn, Option.getD_some]
  exact hlt.trans_le (hcounter ▸ r'.searches_nextIndex.le)

/-! ### Binding -/

theorem bind_fst (r : Registry) (v : Value) :
    (r.bind v).1 = ":" ++ r.stem ++ toString r.nextIndex :=
  String.append_assoc.symm

theorem get?_bind (r : Registry) (v : Value) (name : String) :
    Fields.get? (r.bind v).2.params name =
      if name = nameOf r.stem r.nextIndex then some v else Fields.get? r.params name := by
  rw [bind, Fields.get?_put]

theorem names_bind (r : Registry) (v : Value) :
    (Fields.names (r.bind v).2.params).Perm
      (nameOf r.stem r.nextIndex :: Fields.names r.params) :=
  Fields.names_put_perm r.get?_nextIndex v

/-- A binding takes a number: the search for it ends, no smaller number from the counter on has a
free name, and nothing changes but that the value stands under the new name. -/
structure Takes (r : Registry) (v : Value) (index : Nat) : Prop where
  ends : Searches r.stem r.params r.counter index
  bounded : index ≤ r.counter + r.params.length
  least : IsLeast {i | r.counter ≤ i ∧ Fields.get? r.params (r.stem ++ toString i) = none} index
  token : (r.bind v).1 = ":" ++ r.stem ++ toString index
  lookup : ∀ name, Fields.get? (r.bind v).2.params name =
    if name = r.stem ++ toString index then some v else Fields.get? r.params name
  names : (Fields.names (r.bind v).2.params).Perm
    ((r.stem ++ toString index) :: Fields.names r.params)
  /-- The counter moves behind the number, and merging does not move it. -/
  counter : ∀ maps : List (Fields Value), (maps.foldl merge (r.bind v).2).counter = index + 1
  /-- Whatever is merged and bound in between, later numbers are greater. -/
  later : ∀ r' w, (r.bind v).2.Steps r' →
    ∃ index', (r'.bind w).1 = ":" ++ r.stem ++ toString index' ∧ index < index'

theorem takes_nextIndex (r : Registry) (v : Value) : r.Takes v r.nextIndex where
  ends := r.searches_nextIndex
  bounded := r.nextIndex_le
  least := r.searches_nextIndex.isLeast
  token := r.bind_fst v
  lookup := r.get?_bind v
  names := r.names_bind v
  counter := r.counter_foldl_merge v
  later r' w h := by
    have hstem : r'.stem = r.stem := h.stem_eq
    exact ⟨r'.nextIndex, hstem ▸ r'.bind_fst w, nextIndex_lt_of_steps h⟩

/-- However a registry came about, binding a value takes a number, and its placeholder is the stem
of the registry and this number. Before the first binding the counter is the number of
parameters. -/
theorem bind_takes_least {stem : String} {r : Registry} (h : (ofStem stem).Steps r) (v : Value) :
    r.stem = stem ∧ (∃ index, r.Takes v index) ∧
      ((∀ name w, .bound name w ∉ r.history) → r.counter = r.params.length) := by
  refine ⟨h.stem_eq, ⟨r.nextIndex, r.takes_nextIndex v⟩, fun hunbound => ?_⟩
  rw [counter, h.next?_eq_none hunbound, Option.getD_none]

/-- The first name that is tried belongs to the caller. -/
def suppliedFirst : Registry :=
  (ofStem "qp").merge [("qp1", .string "taken")]

theorem bind_takes_least_supplied :
    (ofStem "qp").Steps suppliedFirst ∧ (suppliedFirst.bind (.int 1)).1 = ":qp2" ∧
      suppliedFirst.stem = "qp" ∧ (∃ index, suppliedFirst.Takes (.int 1) index) ∧
      ((∀ name w, .bound name w ∉ suppliedFirst.history) →
        suppliedFirst.counter = suppliedFirst.params.length) := by
  have hsteps : (ofStem "qp").Steps suppliedFirst := .merge .refl _
  exact ⟨hsteps, rfl, bind_takes_least hsteps (.int 1)⟩

end Registry

end DocMapper
