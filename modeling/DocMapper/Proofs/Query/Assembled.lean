import DocMapper.Proofs.Query.BuilderCalls
/-!
# Assembled statements

A statement that is built from nothing but the calls of its kind uses clauses of its kind only, and
so do all statements that came in with the calls, at every depth. Whole statements from a class,
conditions and values are built from such calls as well.
-/

namespace DocMapper

namespace Statement

/-- Statements as the calls of their kind make them, from nothing but such statements. -/
inductive Assembled : Statement → Prop where
  | selectOf (projections : List Projection) : Assembled (selectOf projections)
  | insert : Assembled insert
  | updateAll (targets : List String) : Assembled (updateAll targets)
  | delete : Assembled delete
  | traverse (fields : List String) : Assembled (traverse fields)
  | perform {s : Statement} (h : Assembled s) (call : BuilderCall) (hoffered : call.OfferedBy s.kind)
    (hbrought : ∀ sub, call.Brings sub → Assembled sub) : Assembled (call.perform s)

/-- Only clauses of its kind are used in a statement. -/
def Tabled (s : Statement) : Prop :=
  ∀ clause, s.Uses clause → clause ∈ s.kind.clauses

variable {brought : Statement → Prop} {about : Clause → Prop} {s t : Statement}

theorem Grows.tabled (h : Grows brought about s t)
    (habout : ∀ clause, about clause → clause ∈ s.kind.clauses)
    (hbrought : ∀ sub, brought sub → sub.Everywhere Tabled) (hs : s.Everywhere Tabled) :
    t.Everywhere Tabled := by
  refine .intro (fun clause huses => ?_) fun sub hsub => ?_
  · rw [h.kind]
    exact (h.uses clause huses).elim (hs.self clause) (habout clause)
  · exact (h.contains sub hsub).elim hs.inner (hbrought sub)

/-- A new statement uses no clause that may hold statements. -/
theorem tabled_of_frame (frame : Frame) : (Statement.mk frame [] [] [] []).Everywhere Tabled := by
  refine everywhere_of_frame fun clause huses => ?_
  cases huses with
  | source h | binding h | condition h => exact absurd rfl h
  | change hmem => cases hmem

theorem Assembled.tabled (h : s.Assembled) : s.Everywhere Tabled := by
  induction h with
  | selectOf projections =>
    have hgrows : Grows (fun _ => False) (fun _ => False) select
        (Statement.selectOf projections) :=
      grows_addProjections select projections
    exact hgrows.tabled nofun nofun (tabled_of_frame _)
  | insert | updateAll targets | delete | traverse fields => exact tabled_of_frame _
  | perform _ call hoffered _ ih ihbrought => exact (call.grows _).tabled hoffered ihbrought ih

/-! ### Whole statements -/

namespace Assembled

theorem call (h : s.Assembled) (call : ClauseCall)
    (hclause : ∀ clause, call.clause? = some clause → clause ∈ s.kind.clauses)
    (hbrought : ∀ sub, call.Brings sub → sub.Assembled) : (call.apply s).Assembled := by
  have hperform := h.perform (.clause call) hclause fun sub hsub => by
    rw [BuilderCall.Brings] at hsub
    exact hbrought sub hsub
  rwa [BuilderCall.perform] at hperform

theorem apply (h : s.Assembled) (call : ClauseCall) (hplain : call.Plain s.kind) :
    (call.apply s).Assembled :=
  h.call call hplain.clause fun sub hsub => absurd hsub (hplain.alone sub)

/-- A condition may ask for what an assembled statement finds. -/
theorem pushQuery (h : s.Assembled) (hwhere : .where ∈ s.kind.clauses)
    (path token : String) {sub : Statement} (hsub : sub.Assembled) :
    (s.pushCondition .and (.compare path token (.query sub))).Assembled := by
  refine h.call (.pushCondition .and (.compare path token (.query sub))) ?_ fun _ hasks => ?_
  · rintro _ ⟨⟩
    exact hwhere
  · cases hasks
    exact hsub

/-- An update may assign what an assembled statement finds. -/
theorem addQuery (h : s.Assembled) (kind : ChangeKind)
    (hkind : kind.clause ∈ s.kind.clauses) (path : String) {sub : Statement} (hsub : sub.Assembled) :
    (s.addChange kind path (.query sub)).Assembled := by
  refine h.call (.addChange kind path (.query sub)) ?_ fun _ hbrings => ?_
  · rintro _ ⟨⟩
    exact hkind
  · cases hbrings
    exact hsub

theorem setOptions (h : s.Assembled) (options : Fields Json) : (s.setOptions options).Assembled := by
  unfold Statement.setOptions
  induction options generalizing s with
  | nil => exact h
  | cons option rest ih =>
    have hperform := h.perform (.option option.1 option.2) (fun _ => id) fun sub hsub => by
      rw [BuilderCall.Brings] at hsub
      exact hsub.elim
    rw [BuilderCall.perform] at hperform
    exact ih hperform

theorem attach (h : s.Assembled) (target : ClassRef) : (target.attach s).Assembled := by
  cases target with
  | named name => exact h
  | ofSchema schema => exact h.apply (.setSchema schema) ⟨nofun, fun _ => id⟩

theorem whereMap (h : s.Assembled) (hwhere : .where ∈ s.kind.clauses) (conditions : Fields Value) :
    (s.whereMap conditions).Assembled := by
  unfold Statement.whereMap
  split
  · exact h
  · exact h.apply (.pushCondition .and (.ofMap conditions)) <|
      ClauseCall.plain_of_mem rfl hwhere fun _ =>
        Condition.not_asks_singleOrAll (Condition.not_asks_ofEntries conditions)

end Assembled

theorem kind_attach (target : ClassRef) (s : Statement) : (target.attach s).kind = s.kind := by
  cases target <;> rfl

theorem kind_whereMap (s : Statement) (conditions : Fields Value) :
    (s.whereMap conditions).kind = s.kind := by
  unfold whereMap
  split
  · rfl
  · exact ClauseCall.kind_apply s (.pushCondition .and (.ofMap conditions))

/-- An operation of an update is one of its calls. -/
theorem exists_updateOperation (name : String) (operand : Value) :
    ∃ call : ClauseCall, call.Plain .update ∧
      ∀ s : Statement, s.updateOperation name operand = call.apply s := by
  have hchange : ∀ kind changes, (ClauseCall.change kind changes).Plain .update := by
    intro kind changes
    refine ClauseCall.plain_of_mem rfl ?_ fun _ => id
    cases kind <;> decide
  have herror : ∀ e, (ClauseCall.recordError e).Plain .update := fun e => ⟨nofun, fun _ => id⟩
  unfold updateOperation
  split
  · exact ⟨.content operand, ClauseCall.plain_of_mem rfl (by decide) fun _ => id, fun _ => rfl⟩
  · exact ⟨.merge operand, ClauseCall.plain_of_mem rfl (by decide) fun _ => id, fun _ => rfl⟩
  · split
    · exact ⟨.recordError _, herror _, fun _ => rfl⟩
    · split
      · exact ⟨.change _ _, hchange _ _, fun _ => rfl⟩
      · exact ⟨.recordError _, herror _, fun _ => rfl⟩

namespace Assembled

theorem updateOperations (h : s.Assembled) (hkind : s.kind = .update)
    (operations : List (String × Value)) :
    (operations.foldl (fun s entry => s.updateOperation entry.1 entry.2) s).Assembled := by
  induction operations generalizing s with
  | nil => exact h
  | cons entry rest ih =>
    obtain ⟨call, hplain, heq⟩ := exists_updateOperation entry.1 entry.2
    rw [List.foldl_cons, heq]
    exact ih (h.apply call (hkind ▸ hplain)) ((call.kind_apply s).trans hkind)

variable (target : ClassRef) (conditions record : Fields Value) (options : Fields Json)

theorem insertInto : (Statement.insertInto target record options).Assembled := by
  have hkind : (target.attach Statement.insert).kind = .insert := kind_attach target _
  have hinto := (Assembled.insert.attach target).apply (.setInto target.className)
    (ClauseCall.plain_of_mem rfl (by rw [hkind]; decide) fun _ => id)
  have hset := hinto.apply (.addChanges .set record)
    (ClauseCall.plain_of_mem rfl (by rw [ClauseCall.kind_apply, hkind]; decide) fun _ => id)
  exact hset.setOptions options

theorem updateWhere : (Statement.updateWhere target conditions record options).Assembled := by
  have hstart := (updateAll [(takeAddress target conditions).1]).attach target
  have hkind : (target.attach (Statement.updateAll [(takeAddress target conditions).1])).kind =
      .update := kind_attach target _
  have hwhere := hstart.whereMap (by rw [hkind]; decide) (takeAddress target conditions).2
  have hwhereKind := (kind_whereMap _ (takeAddress target conditions).2).trans hkind
  have hset := hwhere.apply (.addChanges .set (record.filter fun entry =>
      !Condition.startsWithDollar entry.1))
    (ClauseCall.plain_of_mem rfl (by rw [hwhereKind]; decide) fun _ => id)
  exact (hset.updateOperations ((ClauseCall.kind_apply _ _).trans hwhereKind) _).setOptions options

theorem deleteWhere : (Statement.deleteWhere target conditions options).Assembled := by
  have hkind : (target.attach Statement.delete).kind = .delete := kind_attach target _
  have hfrom := (Assembled.delete.attach target).apply (.setSource (.target target.className))
    (ClauseCall.plain_of_mem rfl (by rw [hkind]; decide) fun _ => nofun)
  refine (hfrom.whereMap ?_ conditions).setOptions options
  rw [ClauseCall.kind_apply, hkind]
  decide

theorem selectWhere (projections : List Projection) :
    (Statement.selectWhere target conditions projections options).Assembled := by
  have hkind : (target.attach (Statement.selectOf projections)).kind = .select :=
    (kind_attach target _).trans (ClauseCall.kind_apply .select (.addProjections projections))
  have hfrom := ((selectOf projections).attach target).apply
    (.setSource (.target (takeAddress target conditions).1))
    (ClauseCall.plain_of_mem rfl (by rw [hkind]; decide) fun _ => nofun)
  refine (hfrom.whereMap ?_ (takeAddress target conditions).2).setOptions options
  rw [ClauseCall.kind_apply, hkind]
  decide

end Assembled

end Statement

end DocMapper
