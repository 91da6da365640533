import DocMapper.Proofs.Compile.Pieces
import DocMapper.Proofs.Compile.Tokens
/-!
# Conditions of a whole statement

The conditions of a statement are the body of one of its clauses, and their parts stand in it one
after the other, each behind its connective. The clause is missing only if no condition left a part,
and then all of them are void.
-/

namespace DocMapper

open Compile Token

namespace Frame

/-- The clauses that are written before the conditions. -/
def clausesBefore (frame : Frame) : List Clause :=
  frame.activeClauses.takeWhile (· ≠ .where)

variable {frame : Frame}

theorem where_mem_activeClauses (hkind : frame.kind ≠ .insert) :
    Clause.where ∈ frame.activeClauses := by
  refine List.mem_filter.mpr ⟨?_, ?_⟩
  · cases hk : frame.kind with
    | insert => exact absurd hk hkind
    | select | update | delete | traverse => decide
  · cases hk : frame.kind <;> simp [isActive, hk]

theorem activeClauses_eq_before_where (hkind : frame.kind ≠ .insert) :
    ∃ rest, frame.activeClauses = frame.clausesBefore ++ .where :: rest ∧
      .where ∉ frame.clausesBefore ∧ .where ∉ rest := by
  obtain ⟨first, rest, hsplit, hout⟩ :=
    List.eq_append_cons_of_mem (where_mem_activeClauses hkind)
  have hbefore : frame.clausesBefore = first := by
    have hfirst : ∀ clause ∈ first, decide (clause ≠ .where) = true := fun clause hmem =>
      decide_eq_true fun heq => hout (heq ▸ hmem)
    rw [clausesBefore, hsplit, List.takeWhile_append_of_pos hfirst,
      List.takeWhile_cons_of_neg (by simp), List.append_nil]
  have hnodup : (first ++ .where :: rest).Nodup := hsplit ▸ (nodup_clauses frame.kind).filter _
  have hrest := (List.nodup_cons.mp (List.nodup_append.mp hnodup).2.1).1
  exact ⟨rest, hbefore.symm ▸ hsplit, hbefore.symm ▸ hout, hrest⟩

end Frame

namespace Statement

/-- The clause of conditions with a body: the keyword and the body behind it. -/
def whereText (s : Statement) (body : String) : String :=
  if body = "" then "" else if s.kind = .traverse then "WHILE " ++ body else "WHERE " ++ body

/-- Conditions without a body are no piece of a text. -/
def wherePieces (s : Statement) (body : String) : List (Clause × String) :=
  if body = "" then [] else [(.where, s.whereText body)]

/-- A statement is written from clauses, of which the one of the conditions has this body and
nothing else behind its keyword. Without a body that clause is missing. A single clause is no
text. -/
structure Bodied (config : Config) (s : Statement) (before : List (Clause × String))
    (body : String) (after : List (Clause × String)) (text : String) : Prop where
  pieced : Pieced config s (before ++ s.wherePieces body ++ after)
  conditions : ∃ r r', Yields (clauseText config s .where) r (s.whereText body) r'
  only : ∀ piece ∈ before ++ after, piece.1 ≠ .where
  joined : text = joinedPieces config.separator (before ++ s.wherePieces body ++ after)

variable {config : Config} {params : Fields Value} {s : Statement} {sql : Sql}

theorem clauseText_where : clauseText config s .where = (do
    let parts ← clauseTexts config s.frame.schema? s.conditions
    pure (s.whereText (Fragment.joinedTests parts))) := by
  have hbody : ∀ body : String, s.whereText body =
      if body.isEmpty then "" else s.frame.kind.whereKeyword ++ " " ++ body := by
    intro body
    cases hkind : s.frame.kind <;> simp [whereText, kind, hkind, StatementKind.whereKeyword]
  simp only [hbody]
  rfl

theorem piecesOf_where (s : Statement) (body : String) :
    piecesOf [.where] [s.whereText body] = s.wherePieces body := by
  by_cases hbody : body = ""
  · simp [piecesOf, wherePieces, whereText, hbody]
  · have hne : s.whereText body ≠ "" := by
      rw [whereText, if_neg hbody]
      split <;> simp [String.append_eq_empty_iff]
    simp [piecesOf, wherePieces, hbody, hne]

/-- The clauses of a statement that compiles are written in turn. -/
theorem compileWith_clauses (h : s.compileWith config params = .ok sql) :
    ∃ texts registry, Yields (s.frame.activeClauses.mapM (clauseText config s))
        (((Registry.ofStem config.stem).merge params).merge s.params) texts registry ∧
      sql.text = Fragment.joined config.separator texts := by
  obtain ⟨registry, hrun, -⟩ := compileWith_eq_ok h
  obtain ⟨-, texts, hclauses, htext⟩ := yields_statementText.mp hrun
  exact ⟨texts, registry, hclauses, htext⟩

/-- The conditions of a statement are written once, as a clause among the others. -/
theorem compileWith_conditions (hkind : s.kind ≠ .insert)
    (h : s.compileWith config params = .ok sql) :
    ∃ texts r parts r' after,
      Yields (s.frame.clausesBefore.mapM (clauseText config s))
        (((Registry.ofStem config.stem).merge params).merge s.params) texts r ∧
      Yields (clauseTexts config s.frame.schema? s.conditions) r parts r' ∧
      s.Bodied config (piecesOf s.frame.clausesBefore texts) (Fragment.joinedTests parts) after
        sql.text := by
  obtain ⟨texts, registry, hall, htext⟩ := compileWith_clauses h
  obtain ⟨rest, hactive, hbefore, hrest⟩ := Frame.activeClauses_eq_before_where hkind
  have hpieced := pieced_of_yields hall
  rw [hactive] at hall hpieced
  obtain ⟨first, r, others, hfirst, hothers, rfl⟩ := yields_mapM_append.mp hall
  obtain ⟨text, r', later, hwhere, hlater, rfl⟩ := yields_mapM_cons.mp hothers
  have hclause := hwhere
  rw [clauseText_where] at hwhere
  obtain ⟨parts, mid, hparts, hpure⟩ := yields_bind.mp hwhere
  obtain ⟨rfl, rfl⟩ := yields_pure.mp hpure
  have hfirstLength := (forall₂_of_mapM hfirst).length_eq
  have hlaterLength := (forall₂_of_mapM hlater).length_eq
  have hpieces : piecesOf (s.frame.clausesBefore ++ .where :: rest)
      (first ++ s.whereText (Fragment.joinedTests parts) :: later) =
      piecesOf s.frame.clausesBefore first ++ s.wherePieces (Fragment.joinedTests parts) ++
        piecesOf rest later := by
    rw [piecesOf_append hfirstLength, ← List.singleton_append (l := rest),
      ← List.singleton_append (l := later), piecesOf_append rfl, piecesOf_where, List.append_assoc]
  refine ⟨first, r, parts, mid, piecesOf rest later, hfirst, hparts, ?_, ⟨r, mid, hclause⟩, ?_, ?_⟩
  · rw [← hpieces]
    exact hpieced
  · intro piece hmem heq
    have hclauses : piece.1 ∈ s.frame.clausesBefore ∨ piece.1 ∈ rest :=
      (List.mem_append.mp hmem).imp
        (fun hmem => (fst_piecesOf_sublist hfirstLength).subset (List.mem_map_of_mem hmem))
        fun hmem => (fst_piecesOf_sublist hlaterLength).subset (List.mem_map_of_mem hmem)
    rw [heq] at hclauses
    exact hclauses.elim hbefore hrest
  · rw [htext, ← hpieces]
    exact joined_eq_joinedPieces (by simp [hfirstLength, hlaterLength]) config.separator

/-- Every condition has its part in a text, at every depth, except for void ones: the body of the
conditions is the row of these parts, each behind its connective and those of a group in
parentheses. There is no such body only if all conditions are void. -/
def ConditionsIn (config : Config) (s : Statement) (text : String) : Prop :=
  ∃ r parts r' before after,
    Leaves config s.frame.schema? s.conditions r parts r' ∧
    s.Bodied config before (write (Part.row parts)) after text ∧
    text = config.separator.intercalate
      ((before ++ s.wherePieces (write (Part.row parts)) ++ after).map Prod.snd) ∧
    (write (Part.row parts) = "" → ∀ clause ∈ s.conditions, clause.test.Void config)

/-- No condition is lost but a void one. -/
theorem conditions_kept (hbuilt : s.Built) (hkind : s.kind ≠ .insert)
    (hraw : ∀ clause ∈ s.conditions, clause.test.Throughout (· ≠ .raw ""))
    (h : s.compileWith config params = .ok sql) (htext : sql.text ≠ "") :
    s.ConditionsIn config sql.text := by
  obtain ⟨texts, r, parts, r', after, -, hrun, hbodied⟩ := compileWith_conditions hkind h
  obtain ⟨parts, hleaves, rfl⟩ := leaves_of_yields s.conditions hbuilt.filled hraw hrun
  have hsolid := hleaves.solid
  rw [← hsolid.write_row] at hbodied
  refine ⟨r, parts, r', _, after, hleaves, hbodied, ?_, fun hempty => ?_⟩
  · rw [hbodied.joined] at htext ⊢
    exact joinedPieces_of_ne_empty htext
  · obtain rfl := hsolid.write_row_eq_empty_iff.mp hempty
    exact hleaves.void_of_nil

/-- Deletes the records whose owner is among the results of a statement without text. -/
def unselective : Statement :=
  (delete.setSource (.target "User")).whereSubquery "owner" "$in" fun q => q.start select

theorem conditions_unselective :
    unselective.conditions = [⟨.and, .membership "owner" .isIn (.query select)⟩] := rfl

theorem built_unselective : unselective.Built :=
  Built.whereSubquery (.start rfl) _ _ _

theorem noEmptyRaw_unselective :
    ∀ clause ∈ unselective.conditions, clause.test.Throughout (· ≠ .raw "") := by
  rw [conditions_unselective, List.forall_mem_singleton]
  exact Test.throughout_of_single nofun nofun

/-- The condition is void, so every record is deleted. -/
theorem condition_lost :
    (unselective.Built ∧ unselective.kind = .delete ∧ unselective.conditions ≠ [] ∧
      ∀ clause ∈ unselective.conditions, clause.test.Throughout (· ≠ .raw "")) ∧
    (unselective.compileWith Config.default []).map (·.text) = .ok "DELETE FROM User" := by
  refine ⟨⟨built_unselective, rfl, ?_, noEmptyRaw_unselective⟩, rfl⟩
  rw [conditions_unselective]
  exact nofun

/-- Beside another condition the void one is left out. -/
def selective : Statement :=
  unselective.andWhere (.ofComparison "age" "$gt" (.int 30))

theorem conditions_selective :
    selective.conditions = unselective.conditions ++ [⟨.and, .compare "age" .gt (.int 30)⟩] := rfl

theorem conditions_kept_selective :
    selective.ConditionsIn Config.default "DELETE FROM User WHERE age > :qp0" := by
  have hbuilt : selective.Built :=
    built_unselective.condition .and (.ofComparison "age" "$gt" (.int 30))
  have hraw : ∀ clause ∈ selective.conditions, clause.test.Throughout (· ≠ .raw "") := by
    rw [conditions_selective, List.forall_mem_append, List.forall_mem_singleton]
    exact ⟨noEmptyRaw_unselective, Test.throughout_of_single nofun nofun⟩
  have hcompile : selective.compileWith Config.default [] =
      .ok ⟨"DELETE FROM User WHERE age > :qp0", [("qp0", .int 30)], .empty⟩ := rfl
  exact conditions_kept hbuilt nofun hraw hcompile (by decide)

end Statement

end DocMapper
