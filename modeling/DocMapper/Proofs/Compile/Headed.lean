import DocMapper.Proofs.Compile.Numbering
import DocMapper.Proofs.Compile.Pieces
/-!
# What a statement begins with

A statement with text is written from two clauses at least, in the order of the table of its kind.
Each clause opens with a word of its own, and the first one in the table with the keyword of the
kind. That one always has text, save in an `UPDATE` without targets: there the other clauses are
written without the keyword.
-/

namespace DocMapper

open Compile

/-! ### The clause that leads -/

section Leading

variable {config : Config} {s : Statement} {clauses : List Clause} {texts : List String}
  {leading : Clause}

/-- No other clause can be taken for the one with the keyword. -/
theorem not_prefix_of_ne_leading (kind : StatementKind) (nestedSet : Bool) :
    ∀ clause ∈ kind.clauses, clause ≠ kind.leading →
      ¬ kind.keyword.toList <+: (clause.opening kind nestedSet).toList ∧
        ¬ (clause.opening kind nestedSet).toList <+: kind.keyword.toList := by
  cases kind <;> cases nestedSet <;> decide

theorem opens_keyword_of_leading {kind : StatementKind} {nestedSet : Bool} {text : String}
    (h : Opens (kind.leading.opening kind nestedSet) text) : Opens kind.keyword text := by
  have hkeyword : Opens kind.keyword (kind.leading.opening kind nestedSet) := by
    cases kind <;> cases nestedSet <;> exact opens_iff_toList.mpr (by decide)
  obtain ⟨rest, rfl⟩ := h
  exact hkeyword.append rest

/-- A text that begins with a clause begins with the keyword exactly if it is the leading one. -/
theorem opens_keyword_iff {kind : StatementKind} {nestedSet : Bool} {clause : Clause}
    (hclause : clause ∈ kind.clauses) {text : String}
    (h : Opens (clause.opening kind nestedSet) text) :
    Opens kind.keyword text ↔ clause = kind.leading := by
  constructor
  · intro hkeyword
    by_contra hne
    obtain ⟨hlonger, hshorter⟩ := not_prefix_of_ne_leading kind nestedSet clause hclause hne
    rw [opens_iff_toList] at h hkeyword
    exact (List.prefix_or_prefix_of_prefix hkeyword h).elim hlonger hshorter
  · rintro rfl
    exact opens_keyword_of_leading h

/-- The leading clause has text exactly in a statement that is no `UPDATE` without targets. -/
theorem leading_ne_empty_iff (h : s.Shaped) {r r' : Registry} {text : String}
    (hyields : Yields (clauseText config s s.kind.leading) r text r') :
    text ≠ "" ↔ s.Targeted := by
  refine ⟨fun hne hkind htargets => hne ?_, fun htargeted => leading_ne_empty h htargeted hyields⟩
  have hleading : s.kind.leading = .update := by rw [hkind]; rfl
  rw [leading_eq (by rw [hkind]; decide) hyields, hleading, Frame.plainClause, htargets]
  rfl

/-- Of clauses that are all different the first one is the first piece if it has text. -/
theorem head?_piecesOf {first : String} (hleading : leading ∉ clauses)
    (hlength : clauses.length = texts.length) :
    ((piecesOf (leading :: clauses) (first :: texts)).map Prod.fst).head? = some leading ↔
      first ≠ "" := by
  by_cases hempty : first = ""
  · have hpieces : piecesOf (leading :: clauses) (first :: texts) = piecesOf clauses texts :=
      List.filter_cons_of_neg (by simp [hempty])
    rw [hpieces]
    refine iff_of_false (fun hhead => hleading ?_) (not_not.mpr hempty)
    exact (fst_piecesOf_sublist hlength).subset (List.mem_of_head? hhead)
  · have hpieces : piecesOf (leading :: clauses) (first :: texts) =
        (leading, first) :: piecesOf clauses texts :=
      List.filter_cons_of_pos (by simpa using hempty)
    rw [hpieces]
    exact iff_of_true rfl hempty

/-- Pieces that are joined begin with the keyword exactly if the leading clause comes first. -/
theorem opens_joined_iff {kind : StatementKind} {nestedSet : Bool} {pieces : List (Clause × String)}
    (hne : pieces ≠ []) (hclauses : ∀ piece ∈ pieces, piece.1 ∈ kind.clauses)
    (hopens : ∀ piece ∈ pieces, Opens (piece.1.opening kind nestedSet) piece.2) (sep : String) :
    Opens kind.keyword (sep.intercalate (pieces.map Prod.snd)) ↔
      (pieces.map Prod.fst).head? = some kind.leading := by
  obtain ⟨piece, rest, rfl⟩ := List.exists_cons_of_ne_nil hne
  have htext := (hopens piece List.mem_cons_self).intercalate sep (rest.map Prod.snd)
  rw [List.map_cons, List.map_cons, List.head?_cons, Option.some_inj]
  exact opens_keyword_iff (hclauses piece List.mem_cons_self) htext

end Leading

/-! ### Whole statements -/

/-- How the text of a statement is laid out: its clauses with text in the order of the table, each
opening with its own word, and the leading one among them exactly if an `UPDATE` has a target. -/
structure Layout (config : Config) (s : Statement) (text : String)
    (pieces : List (Clause × String)) : Prop extends Pieced config s pieces where
  several : 2 ≤ pieces.length
  joined : text = config.separator.intercalate (pieces.map Prod.snd)
  leads : (pieces.map Prod.fst).head? = some s.kind.leading ↔ s.Targeted
  headed : Opens s.kind.keyword text ↔ s.Targeted

/-- A statement has no text, or it is laid out and so is every statement that its text shows in
parentheses. -/
inductive Laid (config : Config) : Statement → String → Prop where
  | void (s : Statement) : Laid config s ""
  | written {s : Statement} {text : String} {pieces : List (Clause × String)} {texts : List String}
    (hlayout : Layout config s text pieces)
    (hsubs : List.Forall₂ (Rendered config) s.written texts) (hshows : Shows text (present texts))
    (hlaid : ∀ sub ∈ s.written.zip texts, Laid config sub.1 sub.2) : Laid config s text

section Statements

variable {config : Config} {s : Statement}

theorem leading_not_mem {frame : Frame} {rest : List Clause}
    (h : frame.activeClauses = frame.kind.leading :: rest) : frame.kind.leading ∉ rest := by
  have hnodup : (frame.kind.leading :: rest).Nodup := h ▸ (nodup_clauses frame.kind).filter _
  exact (List.nodup_cons.mp hnodup).1

theorem leads_of_yields (h : s.Shaped) {r r' : Registry} {texts : List String}
    (hclauses : Yields (s.frame.activeClauses.mapM (clauseText config s)) r texts r') :
    ((piecesOf s.frame.activeClauses texts).map Prod.fst).head? = some s.kind.leading ↔
      s.Targeted := by
  obtain ⟨rest, hactive⟩ := s.frame.activeClauses_eq
  rw [hactive] at hclauses ⊢
  obtain ⟨first, mid, others, hfirst, hrest, rfl⟩ := yields_mapM_cons.mp hclauses
  exact (head?_piecesOf (leading_not_mem hactive) (forall₂_of_mapM hrest).length_eq).trans
    (leading_ne_empty_iff h hfirst)

/-- The clauses of a statement lay out its text. -/
theorem layout_of_yields (h : s.Shaped) {r r' : Registry} {texts : List String}
    (hclauses : Yields (s.frame.activeClauses.mapM (clauseText config s)) r texts r')
    (hseveral : 2 ≤ (present texts).length) :
    Layout config s (config.separator.intercalate (present texts))
      (piecesOf s.frame.activeClauses texts) := by
  have hsnd := snd_piecesOf (forall₂_of_mapM hclauses).length_eq
  have hleads := leads_of_yields h hclauses
  have hpieced := pieced_of_yields hclauses
  rw [← hsnd, List.length_map] at hseveral
  have hne : piecesOf s.frame.activeClauses texts ≠ [] :=
    List.ne_nil_of_length_pos (Nat.lt_of_lt_of_le Nat.zero_lt_two hseveral)
  exact {
    toPieced := hpieced
    several := hseveral
    joined := by rw [hsnd]
    leads := hleads
    headed := by
      rw [← hleads, ← hsnd]
      exact opens_joined_iff hne
        (fun piece hmem => hpieced.order.subset (List.mem_map_of_mem hmem)) hpieced.opens
        config.separator }

theorem laid_of_rendered (h : s.Everywhere Statement.Shaped) {text : String}
    (hrendered : Rendered config s text) : Laid config s text := by
  induction h generalizing text with
  | @intro s hshaped _ ih =>
    obtain ⟨r, r', hyields⟩ := hrendered
    obtain ⟨-, texts, hclauses, rfl⟩ := yields_statementText.mp hyields
    rw [Fragment.joined]
    split
    · exact .void s
    · next hseveral =>
      obtain ⟨subtexts, hsubs, hshows⟩ := exhibits_clauses hshaped _ texts _ hclauses
      refine .written (layout_of_yields hshaped hclauses (Nat.le_of_not_lt hseveral)) hsubs
        hshows.without_empty.intercalate fun sub hsub => ?_
      have hcontains := Statement.contains_of_mem_written (List.of_mem_zip hsub).1
      exact ih sub.1 hcontains (List.forall₂_zip hsubs hsub)

theorem Laid.headed {text : String} (h : Laid config s text) (hne : text ≠ "") :
    Opens s.kind.keyword text ↔ s.Targeted := by
  cases h with
  | void => exact absurd rfl hne
  | written hlayout => exact hlayout.headed

end Statements

namespace Statement

/-- A statement that calls have made and that compiles has no text, or it is laid out as the table
of its kind says, and so is every sub-query in it. It begins with its keyword exactly if it is no
`UPDATE` without targets. -/
theorem headed_iff_targeted {s : Statement} (h : s.Made) {config : Config}
    {params : Fields Value} {sql : Sql} (hcompile : s.compileWith config params = .ok sql) :
    Laid config s sql.text ∧
      (sql.text ≠ "" → (Opens s.kind.keyword sql.text ↔ s.Targeted)) := by
  obtain ⟨registry, hyields, -⟩ := compileWith_eq_ok hcompile
  have hlaid := laid_of_rendered h.shaped ⟨_, registry, hyields⟩
  exact ⟨hlaid, hlaid.headed⟩

/-- A sub-query among the conditions. -/
theorem headed_iff_targeted_following :
    Laid Config.default following followingSql.text ∧ Opens "SELECT" followingSql.text := by
  obtain ⟨hlaid, hheaded⟩ := headed_iff_targeted made_following compile_following
  exact ⟨hlaid, (hheaded (by decide)).mpr targeted_following.self⟩

/-- An `UPDATE` of no targets is written without its keyword, as it has two other clauses. -/
theorem keyword_missing :
    let s := ((updateAll []).addChanges .set [("a", .int 1)]).setLimit 1
    s.Made ∧ s.compile Config.default = .ok ⟨"SET a = 1 LIMIT 1", [], .empty⟩ ∧
      "SET a = 1 LIMIT 1" ≠ "" ∧ ¬ Opens s.kind.keyword "SET a = 1 LIMIT 1" := by
  intro s
  have hmade : s.Made :=
    ((Made.updateAll []).addChanges .set [("a", .int 1)]).withFrame _ ⟨rfl, id, id⟩
  have hkeyword : ¬ "UPDATE".toList <+: "SET a = 1 LIMIT 1".toList := by decide
  exact ⟨hmade, rfl, by decide, fun hopens => hkeyword (opens_iff_toList.mp hopens)⟩

end Statement

end DocMapper
