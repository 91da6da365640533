import DocMapper.Proofs.Compile.Ordered
import DocMapper.Proofs.Compile.Placeholders
import DocMapper.Proofs.Query.Calls
/-!
# Numbers of placeholders

As long as no caller brings parameters, the names are given out in order: each number is the number
of parameters so far, and its name is free. Since names are bound in the order of the text, the
placeholders of a finished statement are numbered from left to right, without a gap.
-/

namespace DocMapper

open Compile

namespace Registry

/-- The parameters are the first `n` names, and the next one is free. -/
structure Numbered (stem : String) (n : Nat) (r : Registry) : Prop where
  stem_eq : r.stem = stem
  names : (Fields.names r.params).Perm ((List.range n).map (nameOf stem))
  next : r.next?.getD r.params.length = n

variable {stem : String} {n : Nat} {r r' : Registry}

theorem numbered_ofStem (stem : String) : Numbered stem 0 (ofStem stem) where
  stem_eq := rfl
  names := .refl _
  next := rfl

theorem Numbered.merge (h : r.Numbered stem n) : (r.merge []).Numbered stem n where
  stem_eq := h.stem_eq
  names := h.names
  next := h.next

theorem Numbered.length (h : r.Numbered stem n) : r.params.length = n := by
  simpa [Fields.names] using h.names.length_eq

/-- The search for a free name ends where it begins. -/
theorem Numbered.nextIndex (h : r.Numbered stem n) : r.nextIndex = n := by
  have hfree : Fields.has r.params (nameOf stem n) = false := by
    by_contra htaken
    rw [Bool.not_eq_false, Fields.has_eq_true_iff, ← Fields.mem_names_iff,
      h.names.mem_iff, List.mem_map] at htaken
    obtain ⟨k, hk, hname⟩ := htaken
    have hlt := List.mem_range.mp hk
    rw [nameOf_injective stem hname] at hlt
    exact Nat.lt_irrefl n hlt
  rw [Registry.nextIndex, h.next, h.stem_eq]
  cases r.params.length with
  | zero => rfl
  | succ fuel => rw [firstFree, hfree, if_neg Bool.false_ne_true]

theorem Numbered.bind (h : r.Numbered stem n) (v : Value) :
    (r.bind v).2.Numbered stem (n + 1) where
  stem_eq := h.stem_eq
  names := by
    have hput := Fields.names_put_perm r.get?_nextIndex v
    rw [h.stem_eq, h.nextIndex] at hput
    have hparams : (r.bind v).2.params = Fields.put r.params (nameOf stem n) v := by
      rw [Registry.bind, h.stem_eq, h.nextIndex]
    rw [hparams, List.range_succ, List.map_append]
    calc
      List.Perm (Fields.names (Fields.put r.params (nameOf stem n) v))
          (nameOf stem n :: Fields.names r.params) := hput
      List.Perm _ (nameOf stem n :: (List.range n).map (nameOf stem)) := h.names.cons _
      List.Perm _ ((List.range n).map (nameOf stem) ++ [nameOf stem n]) :=
        (List.perm_append_singleton _ _).symm
  next := by
    rw [Registry.bind, h.nextIndex]
    rfl

/-- The names that are bound follow upon those that are there. -/
theorem Binds.numbered {names : List String} (h : r.Binds names r') (hr : r.Numbered stem n) :
    names = (List.range' n names.length).map (nameOf stem) ∧
      r'.Numbered stem (n + names.length) := by
  induction h with
  | refl => exact ⟨rfl, hr⟩
  | merge _ ih => exact ⟨ih.1, ih.2.merge⟩
  | @bind names mid _ v ih =>
    obtain ⟨hnames, hmid⟩ := ih
    rw [hmid.stem_eq, hmid.nextIndex, List.length_append, List.length_singleton]
    refine ⟨?_, hmid.bind v⟩
    rw [List.range'_1_concat, List.map_append, ← hnames]
    rfl

end Registry

namespace Statement

/-- The placeholders of a text are the first names, from left to right, and the parameters have
these names and no others. -/
theorem placeholders_numbered {config : Config} {s : Statement} {sql : Sql} (hmade : s.Made)
    (htargeted : s.Everywhere Targeted) (hunsupplied : s.Everywhere Unsupplied)
    (hquiet : s.Everywhere Quiet) (hstem : config.isValid = true)
    (hseparator : config.separator = " ") (h : s.compile config = .ok sql) :
    Inline.placeholders sql.text =
        (List.range sql.params.length).map (Registry.nameOf config.stem) ∧
      (Inline.placeholders sql.text).Nodup ∧
      (Fields.names sql.params).Perm (Inline.placeholders sql.text) := by
  have hfit : s.Everywhere Fit := by
    have hall := ((hmade.shaped.and htargeted).and hunsupplied).and hquiet
    exact hall.imp fun t ht => ⟨ht.1.1.1, ht.1.1.2, ht.1.2, ht.2⟩
  obtain ⟨registry, hyields, hparams⟩ := compileWith_eq_ok h
  have hstart := (Registry.numbered_ofStem config.stem).merge
  have hbinds : ((Registry.ofStem config.stem).merge []).Binds
      (Inline.placeholders sql.text) registry :=
    writes_statementText hseparator s hfit hstem hyields
  obtain ⟨hnames, hnumbered⟩ := hbinds.numbered hstart
  rw [Nat.zero_add] at hnumbered
  have hlength : sql.params.length = (Inline.placeholders sql.text).length :=
    hparams ▸ hnumbered.length
  have htext : Inline.placeholders sql.text =
      (List.range sql.params.length).map (Registry.nameOf config.stem) := by
    rw [hlength, List.range_eq_range']
    exact hnames
  refine ⟨htext, ?_, ?_⟩
  · rw [htext]
    exact List.nodup_range.map (Registry.nameOf_injective config.stem)
  · rw [htext, hlength, hparams]
    exact hnumbered.names

/-- A statement with conditions before, inside and after a sub-query. -/
def followed : Statement :=
  ((selectOf [.ofText "in"]).setSource (.target "Follows")).andWhere
    (.ofComparison "since" "$lt" (.int 2020))

def following : Statement :=
  (((select.setSource (.target "User")).andWhere (.ofComparison "age" "$gt" (.int 30))).whereSubquery
    "@rid" "$in" fun q => q.start followed).andWhere (.ofComparison "name" "$eq" (.string "Ann"))

def followingSql : Sql where
  text := "SELECT * FROM User WHERE age > :qp0 AND @rid IN " ++
    "(SELECT in FROM Follows WHERE since < :qp1) AND name = :qp2"
  params := [("qp0", .int 30), ("qp1", .int 2020), ("qp2", .string "Ann")]
  options := .empty

theorem compile_following : following.compile Config.default = .ok followingSql := by
  rfl

theorem made_following : following.Made := by
  have hfollowed : followed.Made :=
    ((Made.selectOf _).setTarget "Follows").whereComparison "since" "$lt" _
  have hfirst : ((select.setSource (.target "User")).andWhere
      (.ofComparison "age" "$gt" (.int 30))).Made :=
    ((Made.selectOf []).setTarget "User").whereComparison "age" "$gt" _
  refine Made.whereComparison ?_ "name" "$eq" (.string "Ann")
  exact hfirst.whereSubquery "@rid" "$in" fun q hq => hfollowed.start hq

theorem everywhere_following {p : Statement → Prop} (h : p following) (hfollowed : p followed) :
    following.Everywhere p := by
  have hinner : followed.Everywhere p := by
    refine .intro hfollowed fun sub hsub => ?_
    cases hsub with
    | source hmem => cases List.mem_singleton.mp hmem
    | binding hmem => cases hmem
    | condition hmem hasks =>
      obtain rfl := List.mem_singleton.mp hmem
      cases hasks
    | change hmem _ => cases hmem
  refine .intro h fun sub hsub => ?_
  cases hsub with
  | source hmem => cases List.mem_singleton.mp hmem
  | binding hmem => cases hmem
  | condition hmem hasks =>
    rcases List.mem_cons.mp hmem with rfl | hmem
    · cases hasks
    rcases List.mem_cons.mp hmem with rfl | hmem
    · cases hasks
      exact hinner
    obtain rfl := List.mem_singleton.mp hmem
    cases hasks
  | change hmem _ => cases hmem

theorem targeted_following : following.Everywhere Targeted :=
  everywhere_following nofun nofun

theorem unsupplied_following : following.Everywhere Unsupplied := by
  have hcompare : ∀ path op v, (Test.compare path op v).Throughout Test.Unsupplied := by
    intro path op v
    exact Test.unsupplied_of_single fun params members heq => by cases heq
  have hmembership : ∀ path op operand,
      (Test.membership path op operand).Throughout Test.Unsupplied := by
    intro path op operand
    exact Test.unsupplied_of_single fun params members heq => by cases heq
  refine everywhere_following ⟨rfl, ?_, ?_⟩ ⟨rfl, ?_, ?_⟩
  · exact List.forall_mem_singleton.mpr rfl
  · exact List.forall_mem_cons.mpr ⟨hcompare _ _ _, List.forall_mem_cons.mpr
      ⟨hmembership _ _ _, List.forall_mem_singleton.mpr (hcompare _ _ _)⟩⟩
  · exact List.forall_mem_singleton.mpr rfl
  · exact List.forall_mem_singleton.mpr (hcompare _ _ _)

theorem quiet_selectFrame {projections : List Projection} (h : ∀ p ∈ projections, p.Quiet) :
    Frame.Quiet { Frame.empty .select with projections := projections } where
  projections := h
  fields := nofun
  targets := nofun
  into := nofun
  group := nofun
  order := nofun
  fetchPlan := nofun
  content := nofun
  merge := nofun
  returning := nofun

theorem quiet_following : following.Everywhere Quiet := by
  have hprojection : ∀ text, Inline.Quiet text → ∀ p ∈ [Projection.ofText text], p.Quiet :=
    fun text h => List.forall_mem_singleton.mpr ⟨h, nofun⟩
  have hsource : ∀ {target : String}, Inline.Quiet target → ∀ text,
      Source.target text ∈ [Source.target target] → Inline.Quiet text := by
    intro target h text hmem
    cases List.mem_singleton.mp hmem
    exact h
  refine everywhere_following ⟨?_, ?_, nofun, nofun, ?_, nofun, nofun⟩
    ⟨?_, ?_, nofun, nofun, ?_, nofun, nofun⟩
  · exact quiet_selectFrame (hprojection "*" (by decide))
  · exact hsource (by decide)
  · refine List.forall_mem_cons.mpr ⟨?_, List.forall_mem_cons.mpr
      ⟨?_, List.forall_mem_singleton.mpr ?_⟩⟩
    all_goals exact Test.throughout_of_single nofun (by decide)
  · exact quiet_selectFrame (hprojection "in" (by decide))
  · exact hsource (by decide)
  · exact List.forall_mem_singleton.mpr (Test.throughout_of_single nofun (by decide))

theorem placeholders_numbered_following :
    (Inline.placeholders followingSql.text = ["qp0", "qp1", "qp2"] ∧
        (Inline.placeholders followingSql.text).Nodup ∧
        (Fields.names followingSql.params).Perm (Inline.placeholders followingSql.text)) :=
  placeholders_numbered made_following targeted_following unsupplied_following quiet_following
    (by decide) rfl compile_following

end Statement

end DocMapper
