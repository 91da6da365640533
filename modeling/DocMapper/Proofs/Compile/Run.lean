import DocMapper.Compile.Statement
/-!
What a compilation that succeeds has done. `Yields` opens a run step by step, and `Follows` says of
a whole run that it only merges and binds.
-/

namespace DocMapper

namespace Compile

variable {α β : Type} {r r' : Registry}

/-- Started with one registry, a computation succeeds with a result and another registry. -/
def Yields (m : Compile α) (r : Registry) (a : α) (r' : Registry) : Prop :=
  m.run r = .ok (a, r')

theorem Yields.unique {m : Compile α} {mid : Registry} {a b : α} (h : Yields m r a r')
    (h' : Yields m r b mid) : a = b ∧ r' = mid :=
  Prod.mk.inj (Except.ok.inj (h.symm.trans h'))

@[simp]
theorem yields_pure {a b : α} : Yields (pure a) r b r' ↔ a = b ∧ r = r' := by
  change (Except.ok (a, r) : Except Error (α × Registry)) = .ok (b, r') ↔ _
  simp

@[simp]
theorem yields_bind {m : Compile α} {f : α → Compile β} {b : β} :
    Yields (m >>= f) r b r' ↔ ∃ a mid, Yields m r a mid ∧ Yields (f a) mid b r' := by
  simp only [Yields, StateT.run_bind]
  cases h : m.run r with
  | error e => simp [Bind.bind, Except.bind]
  | ok result =>
    obtain ⟨a, mid⟩ := result
    constructor
    · exact fun hf => ⟨a, mid, rfl, hf⟩
    · rintro ⟨a', mid', heq, hf⟩
      cases heq
      exact hf

@[simp]
theorem not_yields_fail {e : Error} {a : α} : ¬ Yields (fail e) r a r' := by
  intro h
  cases h

@[simp]
theorem yields_bindValue {v : Value} {token : String} :
    Yields (Compile.bind v) r token r' ↔ r.bind v = (token, r') := by
  change (Except.ok (r.bind v) : Except Error (String × Registry)) = .ok (token, r') ↔ _
  simp

@[simp]
theorem yields_mergeParams {params : Fields Value} {u : Unit} :
    Yields (mergeParams params) r u r' ↔ r.merge params = r' := by
  change (Except.ok ((), r.merge params) : Except Error (Unit × Registry)) = .ok (u, r') ↔ _
  simp

@[simp]
theorem yields_fill {text filled : String} :
    Yields (fill text) r filled r' ↔ Inline.fill text r.params = filled ∧ r = r' := by
  change (Except.ok (Inline.fill text r.params, r) : Except Error (String × Registry)) =
    .ok (filled, r') ↔ _
  simp

@[simp]
theorem yields_liftCast {result : Except CastError α} {a : α} :
    Yields (liftCast result) r a r' ↔ result = .ok a ∧ r = r' := by
  cases result <;> simp [liftCast]

theorem yields_mapM_cons {f : α → Compile β} {a : α} {rest : List α} {bs : List β} :
    Yields ((a :: rest).mapM f) r bs r' ↔
      ∃ b mid bs', Yields (f a) r b mid ∧ Yields (rest.mapM f) mid bs' r' ∧ bs = b :: bs' := by
  rw [List.mapM_cons]
  simp only [yields_bind, yields_pure]
  constructor
  · rintro ⟨b, mid, hb, bs', last, hrest, rfl, rfl⟩
    exact ⟨b, mid, bs', hb, hrest, rfl⟩
  · rintro ⟨b, mid, bs', hb, hrest, rfl⟩
    exact ⟨b, mid, hb, bs', r', hrest, rfl, rfl⟩

theorem yields_mapM_append {f : α → Compile β} {first second : List α} {bs : List β} :
    Yields ((first ++ second).mapM f) r bs r' ↔
      ∃ bs₁ mid bs₂, Yields (first.mapM f) r bs₁ mid ∧ Yields (second.mapM f) mid bs₂ r' ∧
        bs = bs₁ ++ bs₂ := by
  rw [List.mapM_append]
  simp only [yields_bind, yields_pure]
  constructor
  · rintro ⟨bs₁, mid, hfirst, bs₂, last, hsecond, rfl, rfl⟩
    exact ⟨bs₁, mid, bs₂, hfirst, hsecond, rfl⟩
  · rintro ⟨bs₁, mid, bs₂, hfirst, hsecond, rfl⟩
    exact ⟨bs₁, mid, hfirst, bs₂, r', hsecond, rfl, rfl⟩

end Compile

theorem Statement.compileWith_eq_ok {config : Config} {params : Fields Value} {s : Statement} {sql : Sql}
    (h : s.compileWith config params = .ok sql) :
    ∃ registry, Compile.Yields (statementText config s)
        ((Registry.ofStem config.stem).merge params) sql.text registry ∧
      sql.params = registry.params := by
  rw [Statement.compileWith] at h
  cases hrun : (statementText config s).run ((Registry.ofStem config.stem).merge params) with
  | error e =>
    rw [hrun] at h
    cases h
  | ok result =>
    rw [hrun] at h
    cases h
    exact ⟨result.2, hrun, rfl⟩

end DocMapper
