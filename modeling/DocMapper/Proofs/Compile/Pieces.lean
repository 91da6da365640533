import DocMapper.Proofs.Compile.Shown
/-!
# The clauses of a text

The text of a statement is put together from the texts of its clauses. Each of them opens with a
word of its own, and those with text stand in the order of the table of the kind.
-/

namespace DocMapper

open Compile

/-- The text begins with another. -/
def Opens (opening text : String) : Prop :=
  ∃ rest, text = opening ++ rest

section Opens

variable {opening text first sep : String}

theorem opens_append (opening rest : String) : Opens opening (opening ++ rest) :=
  ⟨rest, rfl⟩

theorem Opens.append (h : Opens opening text) (tail : String) : Opens opening (text ++ tail) := by
  obtain ⟨rest, rfl⟩ := h
  exact ⟨rest ++ tail, String.append_assoc⟩

theorem Opens.intercalate (h : Opens opening first) (sep : String) (texts : List String) :
    Opens opening (sep.intercalate (first :: texts)) := by
  cases texts with
  | nil =>
    rw [String.intercalate_singleton]
    exact h
  | cons next rest =>
    rw [String.intercalate_cons_cons, String.append_assoc]
    exact h.append _

theorem opens_iff_toList : Opens opening text ↔ opening.toList <+: text.toList := by
  constructor
  · rintro ⟨rest, rfl⟩
    exact ⟨rest.toList, String.toList_append.symm⟩
  · rintro ⟨rest, hrest⟩
    refine ⟨String.ofList rest, String.toList_inj.mp ?_⟩
    rw [String.toList_append, String.toList_ofList, hrest]

end Opens

/-! ### What clauses open with -/

/-- The text that a clause opens with. -/
def Clause.opening (kind : StatementKind) (nestedSet : Bool) : Clause → String
  | .select => "SELECT "
  | .traverse => "TRAVERSE "
  | .insert => "INSERT"
  | .update => "UPDATE "
  | .delete => "DELETE"
  | .into => "INTO "
  | .from => "FROM "
  | .let => "LET $"
  | .where => kind.whereKeyword ++ " "
  | .group => "GROUP BY "
  | .order => "ORDER BY "
  | .skip => "SKIP "
  | .limit => "LIMIT "
  | .fetchPlan => "FETCHPLAN "
  | .timeout => "TIMEOUT "
  | .lock => "LOCK "
  | .parallel => "PARALLEL"
  | .set => "SET "
  | .increment => "INCREMENT "
  | .add => "ADD "
  | .remove => "REMOVE "
  | .put => if nestedSet then "SET " else "PUT "
  | .content => "CONTENT "
  | .merge => "MERGE "
  | .upsert => "UPSERT"
  | .return => "RETURN "
  | .strategy => "STRATEGY "

theorem opening_of_changeKind? {clause : Clause} {kind : ChangeKind}
    (h : clause.changeKind? = some kind) (of : StatementKind) (nestedSet : Bool) :
    clause.opening of nestedSet = Fragment.changeKeyword nestedSet kind ++ " " := by
  cases clause <;> cases h <;> cases nestedSet <;> rfl

namespace Fragment

variable {opening : String}

theorem opens_listClause {keyword : String} {items : List String}
    (hne : listClause keyword items ≠ "") :
    Opens (keyword ++ " ") (listClause keyword items) := by
  rw [listClause] at hne ⊢
  split
  · next hempty => exact absurd (if_pos hempty) hne
  · exact opens_append _ _

theorem opens_targetClause {keyword : String} {allowList : Bool} {targets : List String}
    (hne : targetClause keyword allowList targets ≠ "") :
    Opens (keyword ++ " ") (targetClause keyword allowList targets) := by
  cases targets with
  | nil => exact absurd rfl hne
  | cons first rest =>
    rw [targetClause]
    split <;> exact opens_append _ _

theorem opens_optional {α : Type} {text : α → String} {a? : Option α}
    (h : ∀ a, Opens opening (text a)) (hne : optional text a? ≠ "") :
    Opens opening (optional text a?) := by
  cases a? with
  | none => exact absurd rfl hne
  | some a => exact h a

theorem opens_returnText (clause : ReturnClause) : Opens "RETURN " (returnText clause) := by
  rw [returnText]
  split
  · exact ((opens_append _ _).append _).append _
  · exact opens_append _ _

theorem opens_selectClause {projections : List Projection} {r r' : Registry} {text : String}
    (h : Yields (selectClause projections) r text r') (hne : text ≠ "") : Opens "SELECT " text := by
  rw [selectClause] at h
  split at h
  · exact absurd (yields_pure.mp h).1.symm hne
  · obtain ⟨items, mid, -, hpure⟩ := yields_bind.mp h
    obtain ⟨rfl, -⟩ := yields_pure.mp hpure
    exact opens_append _ _

theorem opens_documentClause {schema? : Option Schema} {keyword : String}
    {documents : List (Fields Value)} {r r' : Registry} {text : String}
    (h : Yields (documentClause schema? keyword documents) r text r') (hne : text ≠ "") :
    Opens (keyword ++ " ") text := by
  rw [documentClause] at h
  split at h
  · exact absurd (yields_pure.mp h).1.symm hne
  · obtain ⟨entries, mid, -, hpure⟩ := yields_bind.mp h
    obtain ⟨rfl, -⟩ := yields_pure.mp hpure
    exact opens_append _ _

end Fragment

theorem Frame.opens_plainClause {frame : Frame} {nestedSet : Bool} {clause : Clause}
    (hne : frame.plainClause clause ≠ "") :
    Opens (clause.opening frame.kind nestedSet) (frame.plainClause clause) := by
  cases clause with
  | traverse | order => exact Fragment.opens_listClause hne
  | update => exact Fragment.opens_targetClause hne
  | insert | delete => exact ⟨"", rfl⟩
  | into | group | skip | limit | timeout | lock | strategy =>
    exact Fragment.opens_optional (fun _ => opens_append _ _) hne
  | «return» => exact Fragment.opens_optional Fragment.opens_returnText hne
  | fetchPlan =>
    rw [plainClause] at hne ⊢
    split
    · next hempty => exact absurd (if_pos hempty) hne
    · exact opens_append _ _
  | parallel | upsert =>
    rw [plainClause] at hne ⊢
    split
    · exact ⟨"", rfl⟩
    · next hfalse => exact absurd (if_neg hfalse) hne
  | _ => exact absurd rfl hne

section Statements

variable {config : Config} {s : Statement}

theorem opens_letTexts {lets : List (String × LetValue)} {r r' : Registry} {texts : List String}
    (h : Yields (letTexts config lets) r texts r') : ∀ text ∈ texts, Opens "LET $" text := by
  have hbinding : ∀ name text, Opens "LET $" ("LET $" ++ name ++ " = " ++ text) := fun name text =>
    ((opens_append "LET $" name).append _).append _
  induction lets generalizing r texts with
  | nil =>
    obtain ⟨rfl, -⟩ := yields_pure.mp h
    exact nofun
  | cons entry rest ih =>
    match entry with
    | (name, .expression text) =>
      obtain ⟨later, mid, hlater, hpure⟩ := yields_bind.mp h
      obtain ⟨rfl, rfl⟩ := yields_pure.mp hpure
      exact List.forall_mem_cons.mpr ⟨hbinding name text, ih hlater⟩
    | (name, .query sub) =>
      obtain ⟨text, mid, -, hbind⟩ := yields_bind.mp h
      obtain ⟨later, last, hlater, hpure⟩ := yields_bind.mp hbind
      obtain ⟨rfl, rfl⟩ := yields_pure.mp hpure
      split
      · exact ih hlater
      · exact List.forall_mem_cons.mpr ⟨hbinding name _, ih hlater⟩

/-- A clause with text opens with its own word. -/
theorem opens_clauseText {clause : Clause} {r r' : Registry} {text : String}
    (h : Yields (clauseText config s clause) r text r') (hne : text ≠ "") :
    Opens (clause.opening s.kind config.dialect.putAsNestedSet) text := by
  have hplain : s.frame.plainClause clause = text →
      Opens (clause.opening s.kind config.dialect.putAsNestedSet) text := by
    rintro rfl
    exact Frame.opens_plainClause hne
  have hchange : ∀ kind, Yields (do
        let items ← changeTexts config s.frame.schema? kind s.changes
        pure (Fragment.listClause
          (Fragment.changeKeyword config.dialect.putAsNestedSet kind) items)) r text r' →
      Opens (Fragment.changeKeyword config.dialect.putAsNestedSet kind ++ " ") text := by
    intro kind hyields
    obtain ⟨items, mid, -, hpure⟩ := yields_bind.mp hyields
    obtain ⟨rfl, -⟩ := yields_pure.mp hpure
    exact Fragment.opens_listClause hne
  cases clause with
  | select => exact Fragment.opens_selectClause h hne
  | «from» =>
    obtain ⟨texts, mid, -, hpure⟩ := yields_bind.mp h
    obtain ⟨rfl, -⟩ := yields_pure.mp hpure
    exact Fragment.opens_targetClause hne
  | «let» =>
    obtain ⟨texts, mid, hlets, hpure⟩ := yields_bind.mp h
    obtain ⟨rfl, -⟩ := yields_pure.mp hpure
    have hopens := opens_letTexts hlets
    cases texts with
    | nil => exact absurd rfl hne
    | cons first rest => exact (hopens first List.mem_cons_self).intercalate _ _
  | «where» =>
    obtain ⟨parts, mid, -, hpure⟩ := yields_bind.mp h
    obtain ⟨rfl, -⟩ := yields_pure.mp hpure
    split at hne
    · exact absurd rfl hne
    · next hbody =>
      rw [if_neg hbody]
      exact opens_append _ _
  | content | merge => exact Fragment.opens_documentClause h hne
  | set | increment | add | remove | put =>
    rw [opening_of_changeKind? rfl]
    exact hchange _ h
  | _ => exact hplain (yields_pure.mp h).1

end Statements

/-! ### Pieces -/

theorem nodup_clauses (kind : StatementKind) : kind.clauses.Nodup := by
  cases kind <;> decide

section Pieces

variable {clauses more : List Clause} {texts others : List String}

/-- The clauses with text, each with its own. -/
def piecesOf (clauses : List Clause) (texts : List String) : List (Clause × String) :=
  (clauses.zip texts).filter fun piece => !piece.2.isEmpty

theorem fst_piecesOf_sublist (h : clauses.length = texts.length) :
    ((piecesOf clauses texts).map Prod.fst).Sublist clauses := by
  have hzip : ((piecesOf clauses texts).map Prod.fst).Sublist ((clauses.zip texts).map Prod.fst) :=
    List.Sublist.map Prod.fst List.filter_sublist
  rwa [List.map_fst_zip (Nat.le_of_eq h)] at hzip

theorem snd_piecesOf (h : clauses.length = texts.length) :
    (piecesOf clauses texts).map Prod.snd = present texts := by
  calc (piecesOf clauses texts).map Prod.snd
      = present ((clauses.zip texts).map Prod.snd) := by rw [present, List.filter_map]; rfl
    _ = present texts := by rw [List.map_snd_zip (Nat.le_of_eq h.symm)]

theorem mem_zip_of_not_mem_piecesOf {clause : Clause} (h : clauses.length = texts.length)
    (hmem : clause ∈ clauses) (hout : clause ∉ (piecesOf clauses texts).map Prod.fst) :
    (clause, "") ∈ clauses.zip texts := by
  rw [← List.map_fst_zip (Nat.le_of_eq h)] at hmem
  obtain ⟨⟨clause, text⟩, hzip, rfl⟩ := List.mem_map.mp hmem
  have hempty : text = "" := by
    by_contra hne
    exact hout (List.mem_map_of_mem (List.mem_filter.mpr ⟨hzip, by simpa using hne⟩))
  exact hempty ▸ hzip

theorem piecesOf_append (h : clauses.length = texts.length) :
    piecesOf (clauses ++ more) (texts ++ others) =
      piecesOf clauses texts ++ piecesOf more others := by
  rw [piecesOf, List.zip_append h, List.filter_append]
  rfl

/-- Pieces as they are joined to a text. A single one is no text. -/
def joinedPieces (sep : String) (pieces : List (Clause × String)) : String :=
  if pieces.length < 2 then "" else sep.intercalate (pieces.map Prod.snd)

theorem joinedPieces_of_ne_empty {sep : String} {pieces : List (Clause × String)}
    (h : joinedPieces sep pieces ≠ "") :
    joinedPieces sep pieces = sep.intercalate (pieces.map Prod.snd) := by
  rw [joinedPieces] at h ⊢
  split
  · next hfew => exact absurd (if_pos hfew) h
  · rfl

theorem joined_eq_joinedPieces (h : clauses.length = texts.length) (sep : String) :
    Fragment.joined sep texts = joinedPieces sep (piecesOf clauses texts) := by
  have hlength : (piecesOf clauses texts).length = (present texts).length := by
    rw [← snd_piecesOf h, List.length_map]
  rw [joinedPieces, snd_piecesOf h, hlength]
  rfl

end Pieces

theorem forall₂_of_mapM {α β : Type} {f : α → Compile β} {items : List α} {results : List β}
    {r r' : Registry} (h : Yields (items.mapM f) r results r') :
    List.Forall₂ (fun a b => ∃ r r', Yields (f a) r b r') items results := by
  induction items generalizing r results with
  | nil =>
    obtain ⟨rfl, -⟩ := yields_pure.mp h
    exact .nil
  | cons a rest ih =>
    obtain ⟨b, mid, later, hfirst, hrest, rfl⟩ := yields_mapM_cons.mp h
    exact .cons ⟨r, mid, hfirst⟩ (ih hrest)

/-- The clauses of a statement that have text, each with the text it is written as. -/
structure Pieced (config : Config) (s : Statement) (pieces : List (Clause × String)) : Prop where
  order : (pieces.map Prod.fst).Sublist s.kind.clauses
  rendered : ∀ piece ∈ pieces, ∃ r r', Yields (clauseText config s piece.1) r piece.2 r'
  absent : ∀ clause ∈ s.frame.activeClauses, clause ∉ pieces.map Prod.fst →
    ∃ r r', Yields (clauseText config s clause) r "" r'
  opens : ∀ piece ∈ pieces,
    Opens (piece.1.opening s.kind config.dialect.putAsNestedSet) piece.2

/-- The clauses that are written in turn are the pieces of the statement. -/
theorem pieced_of_yields {config : Config} {s : Statement} {r r' : Registry} {texts : List String}
    (h : Yields (s.frame.activeClauses.mapM (clauseText config s)) r texts r') :
    Pieced config s (piecesOf s.frame.activeClauses texts) := by
  have hall := forall₂_of_mapM h
  refine ⟨(fst_piecesOf_sublist hall.length_eq).trans List.filter_sublist,
    fun piece hmem => List.forall₂_zip hall (List.mem_filter.mp hmem).1, fun clause hactive hout =>
      List.forall₂_zip hall (mem_zip_of_not_mem_piecesOf hall.length_eq hactive hout),
    fun piece hmem => ?_⟩
  obtain ⟨hzip, hne⟩ := List.mem_filter.mp hmem
  obtain ⟨mid, mid', hyields⟩ := List.forall₂_zip hall hzip
  exact opens_clauseText hyields (by simpa using hne)

end DocMapper
