import DocMapper.Proofs.Compile.Fresh
import DocMapper.Proofs.Success
import DocMapper.Query.Filter
/-!
# Listed operands

The operands of `IN`, `NOT IN` and `BETWEEN` are cast one by one by the type of the items, also
where the path holds a set, which as a whole would drop equal ones. So none of them is lost and none
comes in, each is bound to a placeholder of its own, and both bounds of a range are always cast.
-/

namespace DocMapper

open Compile

/-- A traversal succeeds with what its step makes of the items, one by one. -/
theorem Success.mapM_eq_ok_iff_forall₂ {ε α β : Type} {f : α → Except ε β} {items : List α}
    {results : List β} :
    items.mapM f = .ok results ↔ List.Forall₂ (fun a b => f a = .ok b) items results := by
  induction items generalizing results with
  | nil =>
    rw [List.mapM_nil, pure_eq_ok, List.forall₂_nil_left_iff]
    exact eq_comm
  | cons a rest ih =>
    rw [List.mapM_cons, bind_eq_ok, List.forall₂_cons_left_iff]
    constructor
    · rintro ⟨b, hb, hbind⟩
      obtain ⟨later, hlater, hpure⟩ := bind_eq_ok.mp hbind
      exact ⟨b, later, hb, ih.mp hlater, (pure_eq_ok.mp hpure).symm⟩
    · rintro ⟨b, later, hb, hlater, rfl⟩
      exact ⟨b, hb, bind_eq_ok.mpr ⟨later, ih.mpr hlater, rfl⟩⟩

/-! ### Casts -/

namespace Schema

/-- There is one cast for each value, in its place, and by the type of the items. -/
def CastsEach (schema : Schema) (path : String) : List Value → List Value → Prop :=
  List.Forall₂ fun v cast => schema.castItem path v = .ok cast

variable {schema : Schema} {path : String} {op : Operator} {items : List Value} {w : Value}

theorem castForQuery_list (h : op.shape = .membership ∨ op.shape = .range) :
    schema.castForQuery path op (.list items) =
      (items.mapM (schema.castItem path)).map .list := by
  cases hfield : schema.field? path with
  | none =>
    have hitem : ∀ v, schema.castItem path v = .ok v := fun v => by rw [castItem, hfield]
    rw [castForQuery, hfield, Success.mapM_eq_ok_self fun v _ => hitem v]
    rfl
  | some field =>
    have hitem : schema.castItem path = field.type.itemType.cast path :=
      funext fun v => by rw [castItem, hfield]
    rw [castForQuery, hfield, hitem]
    cases op with
    | isIn | notIn | between => rfl
    | _ => rcases h with h | h <;> cases h

theorem castForQuery_list_eq_ok_iff (h : op.shape = .membership ∨ op.shape = .range) :
    schema.castForQuery path op (.list items) = .ok w ↔
      ∃ casts, w = .list casts ∧ schema.CastsEach path items casts := by
  rw [castForQuery_list h, Success.map_eq_ok]
  refine exists_congr fun casts => ?_
  rw [Success.mapM_eq_ok_iff_forall₂, and_comm, eq_comm]
  rfl

theorem castsEach_pair_iff {low high : Value} {casts : List Value} :
    schema.CastsEach path [low, high] casts ↔ ∃ castLow castHigh, casts = [castLow, castHigh] ∧
      schema.castItem path low = .ok castLow ∧ schema.castItem path high = .ok castHigh := by
  unfold CastsEach
  simp only [List.forall₂_cons_left_iff, List.forall₂_nil_left_iff]
  constructor
  · rintro ⟨castLow, _, hlow, ⟨castHigh, _, hhigh, rfl, rfl⟩, rfl⟩
    exact ⟨castLow, castHigh, rfl, hlow, hhigh⟩
  · rintro ⟨castLow, castHigh, rfl, hlow, hhigh⟩
    exact ⟨castLow, _, hlow, ⟨castHigh, _, hhigh, rfl, rfl⟩, rfl⟩

end Schema

/-! ### Bindings -/

namespace Registry

/-- Between two registries values are bound to names, in their order, each to a new one, and nothing
else happens. -/
structure Assigns (r : Registry) (names : List String) (values : List Value) (r' : Registry) :
    Prop where
  /-- The numbers in the names begin at the counter and grow. -/
  numbered : ∃ indices : List Nat, names = indices.map (nameOf r.stem) ∧
    (∀ index ∈ indices, r.counter ≤ index) ∧ indices.Pairwise (· < ·)
  nodup : names.Nodup
  fresh : ∀ name ∈ names, Fields.get? r.params name = none
  holds : List.Forall₂ (fun name v => Fields.get? r'.params name = some v) names values
  others : ∀ name, name ∉ names → Fields.get? r'.params name = Fields.get? r.params name
  history : r'.history = r.history ++ List.zipWith .bound names values

variable {r r' : Registry} {names : List String} {values : List Value}

theorem Assigns.nil (r : Registry) : r.Assigns [] [] r where
  numbered := ⟨[], rfl, nofun, .nil⟩
  nodup := .nil
  fresh := nofun
  holds := .nil
  others _ _ := rfl
  history := (List.append_nil _).symm

theorem Assigns.cons {v : Value} (h : (r.bind v).2.Assigns names values r') :
    r.Assigns (nameOf r.stem r.nextIndex :: names) (v :: values) r' := by
  have hcounter : (r.bind v).2.counter = r.nextIndex + 1 := r.counter_foldl_merge v []
  have hle : r.counter ≤ r.nextIndex := r.searches_nextIndex.le
  have hbound : Fields.get? (r.bind v).2.params (nameOf r.stem r.nextIndex) = some v := by
    rw [get?_bind, if_pos rfl]
  -- the later names are free when the first one is taken
  have hfirst : nameOf r.stem r.nextIndex ∉ names := fun hmem => by
    have hfree := h.fresh _ hmem
    rw [hbound] at hfree
    cases hfree
  have hkept : ∀ name, name ≠ nameOf r.stem r.nextIndex →
      Fields.get? (r.bind v).2.params name = Fields.get? r.params name := fun name hne => by
    rw [get?_bind, if_neg hne]
  refine ⟨?_, List.nodup_cons.mpr ⟨hfirst, h.nodup⟩, ?_, ?_, ?_, ?_⟩
  · obtain ⟨indices, hnames, hfrom, hordered⟩ := h.numbered
    rw [hcounter] at hfrom
    refine ⟨r.nextIndex :: indices, ?_, ?_, ?_⟩
    · rw [hnames]
      rfl
    · exact List.forall_mem_cons.mpr
        ⟨hle, fun index hmem => (hle.trans (Nat.le_succ _)).trans (hfrom index hmem)⟩
    · exact List.pairwise_cons.mpr ⟨hfrom, hordered⟩
  · refine List.forall_mem_cons.mpr ⟨r.get?_nextIndex, fun name hmem => ?_⟩
    rw [← hkept name fun heq => hfirst (heq ▸ hmem)]
    exact h.fresh name hmem
  · exact .cons ((h.others _ hfirst).trans hbound) h.holds
  · intro name hout
    obtain ⟨hne, hout⟩ := not_or.mp (List.mem_cons.not.mp hout)
    rw [h.others name hout, hkept name hne]
  · rw [h.history, List.zipWith_cons_cons]
    exact List.append_assoc _ _ _

end Registry

namespace Compile

variable {schema : Schema} {path : String} {op : Operator} {items : List Value} {w : Value}
  {r r' : Registry}

/-- Binding values one after the other always succeeds. -/
theorem exists_yields_bindAll (r : Registry) (values : List Value) :
    ∃ names r', Yields (bindAll values) r (names.map (":" ++ ·)) r' ∧
      r.Assigns names values r' := by
  induction values generalizing r with
  | nil => exact ⟨[], r, yields_pure.mpr ⟨rfl, rfl⟩, .nil r⟩
  | cons v rest ih =>
    obtain ⟨names, r', hrest, hassigns⟩ := ih (r.bind v).2
    refine ⟨_, r', ?_, hassigns.cons⟩
    simp only [bindAll, yields_bind, yields_pure]
    exact ⟨_, _, yields_bindValue.mpr rfl, _, _, hrest, rfl, rfl⟩

theorem assigns_of_bindAll {values : List Value} {tokens : List String}
    (h : Yields (bindAll values) r tokens r') :
    ∃ names, tokens = names.map (":" ++ ·) ∧ r.Assigns names values r' := by
  obtain ⟨names, last, hbound, hassigns⟩ := exists_yields_bindAll r values
  obtain ⟨rfl, rfl⟩ := h.unique hbound
  exact ⟨names, rfl, hassigns⟩

theorem yields_bindAll_pair {first second : Value} {tokens : List String} :
    Yields (bindAll [first, second]) r tokens r' ↔
      ∃ firstToken mid secondToken, Yields (Compile.bind first) r firstToken mid ∧
        Yields (Compile.bind second) mid secondToken r' ∧ tokens = [firstToken, secondToken] := by
  simp only [bindAll, yields_bind, yields_pure]
  constructor
  · rintro ⟨_, _, hfirst, _, _, ⟨_, _, hsecond, _, _, ⟨rfl, rfl⟩, rfl, rfl⟩, rfl, rfl⟩
    exact ⟨_, _, _, hfirst, hsecond, rfl⟩
  · rintro ⟨_, _, _, hfirst, hsecond, rfl⟩
    exact ⟨_, _, hfirst, _, _, ⟨_, _, hsecond, _, _, ⟨rfl, rfl⟩, rfl, rfl⟩, rfl, rfl⟩

theorem yields_castOperands (h : op.shape = .membership ∨ op.shape = .range) :
    Yields (Fragment.castForQuery (some schema) path op (.list items)) r w r' ↔
      (∃ casts, w = .list casts ∧ schema.CastsEach path items casts) ∧ r = r' := by
  rw [← Schema.castForQuery_list_eq_ok_iff h]
  exact yields_liftCast

end Compile

/-! ### Tests of listed operands -/

/-- A test asks about the operands in a list, and is written around one token for each. -/
inductive Test.Lists (path : String) : Test → List Value → (List String → String) → Prop where
  | membership {op : Operator} (h : op.shape = .membership) (items : List Value) :
    Lists path (.membership path op (.value (.list items))) items fun tokens =>
      path ++ " " ++ op.sql ++ " [" ++ ", ".intercalate tokens ++ "]"
  | range (low high : Value) :
    Lists path (.range path low high) [low, high] fun tokens =>
      path ++ " BETWEEN " ++ " AND ".intercalate tokens

theorem Test.exists_lists_of_testOf {path : String} {op : Operator} {items : List Value}
    {test : Test} (h : op.shape = .membership ∨ op.shape = .range)
    (htest : Filter.testOf path op (.value (.list items)) = .ok test) :
    ∃ shown, test.Lists path items shown := by
  have hnull : Value.isNull (.list items) = false := rfl
  unfold Filter.testOf Filter.testOfValue at htest
  dsimp only at htest
  rw [hnull, if_neg Bool.false_ne_true] at htest
  rcases h with hshape | hshape
  · rw [hshape] at htest
    cases htest
    exact ⟨_, .membership hshape items⟩
  · rw [hshape] at htest
    dsimp only at htest
    split at htest
    · next low high heq =>
      cases heq
      cases htest
      exact ⟨_, .range low high⟩
    · cases htest

namespace Fragment

/-- A range test that would bind something else instead of the bounds as they were given. -/
def rangeTextOr (fallback : Compile (Value × Value)) (schema? : Option Schema) (path : String)
    (low high : Value) : Compile String := do
  let bounds ← castForQuery schema? path .between (.list [low, high])
  let (low, high) ← match bounds with
    | .list [castLow, castHigh] => pure (castLow, castHigh)
    | _ => fallback
  let lowToken ← Compile.bind low
  let highToken ← Compile.bind high
  pure (path ++ " BETWEEN " ++ lowToken ++ " AND " ++ highToken)

theorem rangeText_eq_rangeTextOr (schema? : Option Schema) (path : String) (low high : Value)
    (fallback : Compile (Value × Value)) :
    rangeText schema? path low high = rangeTextOr fallback schema? path low high := by
  cases schema? with
  | none => rfl
  | some schema =>
    have hlift : castForQuery (some schema) path .between (.list [low, high]) =
        liftCast (schema.castForQuery path .between (.list [low, high])) := rfl
    rw [rangeText, rangeTextOr, hlift]
    cases hbounds : schema.castForQuery path .between (.list [low, high]) with
    | error e => rfl
    | ok w =>
      obtain ⟨casts, rfl, heach⟩ := (Schema.castForQuery_list_eq_ok_iff (Or.inr rfl)).mp hbounds
      obtain ⟨castLow, castHigh, rfl, -, -⟩ := Schema.castsEach_pair_iff.mp heach
      rfl

theorem comparison_bracketed (path operator : String) (tokens : List String) :
    comparison path operator (bracketed tokens) =
      path ++ " " ++ operator ++ " [" ++ ", ".intercalate tokens ++ "]" := by
  have hopening : " [" = " " ++ "[" := rfl
  simp only [comparison, bracketed, commaList, hopening, String.append_assoc]

theorem between_pair (path low high : String) :
    path ++ " BETWEEN " ++ low ++ " AND " ++ high =
      path ++ " BETWEEN " ++ " AND ".intercalate [low, high] := by
  rw [String.intercalate_cons_cons, String.intercalate_singleton]
  simp only [String.append_assoc]

end Fragment

namespace Test

variable {config : Config} {schema : Schema} {path text : String} {test : Test}
  {items : List Value} {shown : List String → String} {r r' : Registry}

/-- The operands are cast, the casts are bound, and the test is written around their tokens. -/
theorem Lists.yields_testText_iff (h : test.Lists path items shown) :
    Yields (testText config (some schema) test) r text r' ↔
      ∃ casts tokens, schema.CastsEach path items casts ∧ Yields (bindAll casts) r tokens r' ∧
        text = shown tokens := by
  cases h with
  | @membership op h =>
    change Yields (Fragment.membershipText (some schema) path op (.list items)) r text r' ↔ _
    rw [Fragment.membershipText, yields_bind]
    simp only [yields_castOperands (Or.inl h), ← Fragment.comparison_bracketed]
    constructor
    · rintro ⟨_, _, ⟨⟨casts, rfl, heach⟩, rfl⟩, hbind⟩
      obtain ⟨tokens, last, htokens, hpure⟩ := yields_bind.mp hbind
      obtain ⟨rfl, rfl⟩ := yields_pure.mp hpure
      exact ⟨casts, tokens, heach, htokens, rfl⟩
    · rintro ⟨casts, tokens, heach, htokens, rfl⟩
      refine ⟨_, r, ⟨⟨casts, rfl, heach⟩, rfl⟩, yields_bind.mpr ⟨tokens, r', htokens, ?_⟩⟩
      exact yields_pure.mpr ⟨rfl, rfl⟩
  | range low high =>
    change Yields (Fragment.rangeText (some schema) path low high) r text r' ↔ _
    have hrange : Operator.between.shape = .membership ∨ Operator.between.shape = .range :=
      Or.inr rfl
    rw [Fragment.rangeText, yields_bind]
    simp only [yields_castOperands hrange, Schema.castsEach_pair_iff]
    constructor
    · rintro ⟨_, _, ⟨⟨_, rfl, castLow, castHigh, rfl, hcasts⟩, rfl⟩, hbind⟩
      simp only [yields_bind, yields_pure] at hbind
      obtain ⟨lowToken, mid, hlow, highToken, _, hhigh, rfl, rfl⟩ := hbind
      exact ⟨_, _, ⟨castLow, castHigh, rfl, hcasts⟩,
        yields_bindAll_pair.mpr ⟨lowToken, mid, highToken, hlow, hhigh, rfl⟩,
        Fragment.between_pair path lowToken highToken⟩
    · rintro ⟨_, tokens, ⟨castLow, castHigh, rfl, hcasts⟩, htokens, rfl⟩
      obtain ⟨lowToken, mid, highToken, hlow, hhigh, rfl⟩ := yields_bindAll_pair.mp htokens
      refine ⟨_, r, ⟨⟨_, rfl, castLow, castHigh, rfl, hcasts⟩, rfl⟩, ?_⟩
      simp only [yields_bind, yields_pure]
      exact ⟨lowToken, mid, hlow, highToken, _, hhigh, Fragment.between_pair path _ _, rfl⟩

theorem Lists.compiles_iff (h : test.Lists path items shown) (config : Config) (r : Registry) :
    (∃ text r', Yields (testText config (some schema) test) r text r') ↔
      ∃ casts, schema.CastsEach path items casts := by
  simp only [h.yields_testText_iff]
  constructor
  · rintro ⟨_, _, casts, _, heach, -⟩
    exact ⟨casts, heach⟩
  · rintro ⟨casts, heach⟩
    obtain ⟨names, r', hbound, -⟩ := exists_yields_bindAll r casts
    exact ⟨_, r', casts, _, heach, hbound, rfl⟩

end Test

namespace Schema

/-- Listed operands are cast one by one, as the items of the path, and fail together if one of them
does. A test of them binds each cast to a placeholder of its own, in order. No range, with a schema
or without one, ever binds anything in place of the two bounds that its cast gave. -/
theorem operands_cast_and_bound_each (schema : Schema) (path : String) :
    (∀ op items w, op.shape = .membership ∨ op.shape = .range →
      (schema.castForQuery path op (.list items) = .ok w ↔
        ∃ casts, w = .list casts ∧ schema.CastsEach path items casts)) ∧
    (∀ op items test, op.shape = .membership ∨ op.shape = .range →
      Filter.testOf path op (.value (.list items)) = .ok test →
        ∃ shown, test.Lists path items shown) ∧
    (∀ config test items shown r, test.Lists path items shown →
      ((∃ text r', Yields (testText config (some schema) test) r text r') ↔
        ∃ casts, schema.CastsEach path items casts) ∧
      ∀ text r', Yields (testText config (some schema) test) r text r' →
        ∃ casts names, schema.CastsEach path items casts ∧ r.Assigns names casts r' ∧
          text = shown (names.map (":" ++ ·))) ∧
    ∀ schema? low high fallback, Fragment.rangeText schema? path low high =
      Fragment.rangeTextOr fallback schema? path low high := by
  refine ⟨fun op items w h => castForQuery_list_eq_ok_iff h,
    fun op items test h htest => Test.exists_lists_of_testOf h htest,
    fun config test items shown r h => ⟨h.compiles_iff config r, fun text r' hyields => ?_⟩,
    fun schema? low high fallback =>
      Fragment.rangeText_eq_rangeTextOr schema? path low high fallback⟩
  obtain ⟨casts, tokens, heach, hbound, rfl⟩ := h.yields_testText_iff.mp hyields
  obtain ⟨names, rfl, hassigns⟩ := assigns_of_bindAll hbound
  exact ⟨casts, names, heach, hassigns, rfl⟩

/-- A set of lists, which as a whole would keep one of two equal operands. -/
def scored : Schema :=
  ⟨"Player", [("scores", .ofType (.set (.list .integer)))]⟩

def scores : List Value :=
  [.string "1", .int 1, .list [.int 2, .string "3"]]

def castScores : List Value :=
  [.list [.int 1], .list [.int 1], .list [.int 2, .int 3]]

theorem operands_cast_and_bound_each_scores :
    scored.castForQuery "scores" .notIn (.list scores) = .ok (.list castScores) ∧
      scored.CastsEach "scores" scores castScores ∧
      (Test.membership "scores" .notIn (.value (.list scores))).Lists "scores" scores
        (fun tokens => "scores" ++ " " ++ "NOT IN" ++ " [" ++ ", ".intercalate tokens ++ "]") ∧
      ∃ r', Yields
          (testText .default (some scored) (.membership "scores" .notIn (.value (.list scores))))
          Registry.suppliedFirst "scores NOT IN [:qp2, :qp3, :qp4]" r' ∧
        ∃ casts names, scored.CastsEach "scores" scores casts ∧
          Registry.suppliedFirst.Assigns names casts r' ∧
          "scores NOT IN [:qp2, :qp3, :qp4]" =
            "scores" ++ " " ++ "NOT IN" ++ " [" ++ ", ".intercalate (names.map (":" ++ ·)) ++
              "]" := by
  obtain ⟨hcasts, -, hbinds, -⟩ := operands_cast_and_bound_each scored "scores"
  have hcast : scored.castForQuery "scores" .notIn (.list scores) = .ok (.list castScores) := rfl
  obtain ⟨casts, heq, heach⟩ := (hcasts .notIn scores _ (Or.inl rfl)).mp hcast
  obtain rfl := Value.list.inj heq
  have hlists : (Test.membership "scores" .notIn (.value (.list scores))).Lists "scores" scores _ :=
    .membership rfl scores
  exact ⟨hcast, heach, hlists, _, rfl,
    (hbinds .default _ scores _ Registry.suppliedFirst hlists).2 _ _ rfl⟩

end Schema

end DocMapper
