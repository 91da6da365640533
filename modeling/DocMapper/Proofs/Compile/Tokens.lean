import DocMapper.Proofs.Compile.Parts
import DocMapper.Proofs.Query.Formula
import Mathlib.Logic.Basic
/-!
# Reading conditions back

The text of conditions is a row of tokens. It is read with the usual precedence: parentheses first,
then `AND`, then `OR`. Parts that are not empty are written as such a row, and reading the row gives
the formula of the parts. Where all connectives of a row are the same, the formula joins the parts
by it.
-/

namespace DocMapper

inductive Token (α : Type) where
  | atom (a : α)
  | connective (logic : Logic)
  | opening
  | closing

namespace Token

variable {α : Type}

def text : Token String → String
  | .atom text => text
  | .connective .and => " AND "
  | .connective .or => " OR "
  | .opening => "("
  | .closing => ")"

theorem text_connective (logic : Logic) :
    (connective logic).text = " " ++ logic.sql ++ " " := by
  cases logic <;> rfl

theorem text_connective_ne_empty (logic : Logic) : (connective logic).text ≠ "" := by
  cases logic <;> decide

def write : List (Token String) → String
  | [] => ""
  | token :: rest => token.text ++ write rest

theorem write_append (first second : List (Token String)) :
    write (first ++ second) = write first ++ write second := by
  induction first with
  | nil => simp [write]
  | cons token rest ih => simp [write, ih, String.append_assoc]

/-- What was read inside one pair of parentheses: the alternatives that are complete, and the
factors of the last one. -/
structure Level (α : Type) where
  alternatives : List (Formula α)
  factors : List (Formula α)

namespace Level

def empty : Level α :=
  ⟨[], []⟩

def factor (level : Level α) (f : Formula α) : Level α :=
  { level with factors := level.factors ++ [f] }

/-- `OR` completes an alternative, and `AND` goes on with it. -/
def connect (level : Level α) : Logic → Level α
  | .and => level
  | .or => ⟨level.alternatives ++ [.join .and level.factors], []⟩

def formula (level : Level α) : Formula α :=
  .join .or (level.alternatives ++ [.join .and level.factors])

end Level

/-- A reading: the levels around, the innermost first, the level itself, and whether it has just
read a factor. -/
structure Reader (α : Type) where
  outer : List (Level α)
  level : Level α
  ready : Bool

namespace Reader

/-- A factor only where one is missing, a connective only after a factor. -/
def step? : Reader α → Token α → Option (Reader α)
  | ⟨outer, level, false⟩, .atom a => some ⟨outer, level.factor (.atom a), true⟩
  | ⟨outer, level, true⟩, .connective logic => some ⟨outer, level.connect logic, false⟩
  | ⟨outer, level, false⟩, .opening => some ⟨level :: outer, .empty, false⟩
  | ⟨around :: outer, level, true⟩, .closing => some ⟨outer, around.factor level.formula, true⟩
  | _, _ => none

def run? (reader : Reader α) : List (Token α) → Option (Reader α)
  | [] => some reader
  | token :: rest => (reader.step? token).bind fun reader => reader.run? rest

theorem run?_append (reader : Reader α) (first second : List (Token α)) :
    reader.run? (first ++ second) = (reader.run? first).bind fun reader => reader.run? second := by
  induction first generalizing reader with
  | nil => rfl
  | cons token rest ih =>
    rw [List.cons_append, run?, run?]
    cases reader.step? token with
    | none => rfl
    | some next => exact ih next

/-- The formula, if all parentheses are closed and no factor is missing. -/
def formula? : Reader α → Option (Formula α)
  | ⟨[], level, true⟩ => some level.formula
  | _ => none

end Reader

def read? (tokens : List (Token α)) : Option (Formula α) :=
  (Reader.run? ⟨[], .empty, false⟩ tokens).bind Reader.formula?

end Token

open Token

/-! ### The tokens of parts -/

mutual

def Part.tokens : Part → List (Token String)
  | .single text => [.atom text]
  | .group parts => .opening :: (Part.row parts ++ [.closing])

/-- The tokens of parts, the first without its connective. -/
def Part.row : List (Logic × Part) → List (Token String)
  | [] => []
  | (_, first) :: rest => first.tokens ++ Part.rowAfter rest

def Part.rowAfter : List (Logic × Part) → List (Token String)
  | [] => []
  | (logic, part) :: rest => .connective logic :: (part.tokens ++ Part.rowAfter rest)

end

mutual

def Part.formula : Part → Formula String
  | .single text => .atom text
  | .group parts => Part.rowFormula parts

/-- The formula of a row, by precedence. -/
def Part.rowFormula : List (Logic × Part) → Formula String
  | [] => Level.empty.formula
  | (_, first) :: rest => (Part.levelAfter (Level.empty.factor first.formula) rest).formula

def Part.levelAfter (level : Level String) : List (Logic × Part) → Level String
  | [] => level
  | (logic, part) :: rest => Part.levelAfter ((level.connect logic).factor part.formula) rest

end

namespace Fragment

/-- Tests after the first, each behind its connective. -/
def testsAfter : List (Logic × String) → String
  | [] => ""
  | (logic, text) :: rest => " " ++ logic.sql ++ " " ++ text ++ testsAfter rest

theorem intercalate_tests (first : String) (rest : List (Logic × String)) :
    " ".intercalate (first :: rest.map fun part => part.1.sql ++ " " ++ part.2) =
      first ++ testsAfter rest := by
  induction rest generalizing first with
  | nil => simp [testsAfter]
  | cons part rest ih =>
    rw [List.map_cons, String.intercalate_cons_cons, ih, testsAfter]
    simp only [String.append_assoc]

theorem joinedTests_cons (logic : Logic) (first : String) (rest : List (Logic × String)) :
    joinedTests ((logic, first) :: rest) = first ++ testsAfter rest :=
  intercalate_tests first rest

end Fragment

/-! ### Writing -/

mutual

theorem Part.Solid.write_tokens {part : Part} (h : part.Solid) : write part.tokens = part.text := by
  cases part with
  | single text => simp [Part.tokens, Part.text, write, Token.text]
  | group parts =>
    rw [Part.Solid] at h
    have hbody : Fragment.joinedTests (Part.texts parts) ≠ "" := fun heq =>
      h.1 (h.2.joinedTests_eq_empty_iff.mp heq)
    rw [Part.tokens, Part.text, Fragment.parenthesized, if_neg (by simpa using hbody), write,
      write_append, h.2.write_row]
    simp [write, Token.text, String.append_assoc]

theorem Part.AllSolid.write_row {parts : List (Logic × Part)} (h : Part.AllSolid parts) :
    write (Part.row parts) = Fragment.joinedTests (Part.texts parts) := by
  match parts with
  | [] => rfl
  | (logic, first) :: rest =>
    rw [Part.row, write_append, h.1.write_tokens, h.2.write_rowAfter, Part.texts,
      Fragment.joinedTests_cons]

theorem Part.AllSolid.write_rowAfter {parts : List (Logic × Part)} (h : Part.AllSolid parts) :
    write (Part.rowAfter parts) = Fragment.testsAfter (Part.texts parts) := by
  match parts with
  | [] => rfl
  | (logic, part) :: rest =>
    rw [Part.rowAfter, write, write_append, h.1.write_tokens, h.2.write_rowAfter, Part.texts,
      Fragment.testsAfter, Token.text_connective]
    simp only [String.append_assoc]

end

mutual

theorem Part.Solid.tokens_ne_empty {part : Part} (h : part.Solid) :
    ∀ token ∈ part.tokens, token.text ≠ "" := by
  cases part with
  | single text =>
    rw [Part.Solid] at h
    exact List.forall_mem_singleton.mpr h
  | group parts =>
    rw [Part.Solid] at h
    rw [Part.tokens, List.forall_mem_cons, List.forall_mem_append, List.forall_mem_singleton]
    exact ⟨by decide, h.2.row_ne_empty, by decide⟩

theorem Part.AllSolid.row_ne_empty {parts : List (Logic × Part)} (h : Part.AllSolid parts) :
    ∀ token ∈ Part.row parts, token.text ≠ "" := by
  match parts with
  | [] => exact nofun
  | (logic, first) :: rest =>
    exact List.forall_mem_append.mpr ⟨h.1.tokens_ne_empty, h.2.rowAfter_ne_empty⟩

theorem Part.AllSolid.rowAfter_ne_empty {parts : List (Logic × Part)} (h : Part.AllSolid parts) :
    ∀ token ∈ Part.rowAfter parts, token.text ≠ "" := by
  match parts with
  | [] => exact nofun
  | (logic, part) :: rest =>
    rw [Part.rowAfter, List.forall_mem_cons, List.forall_mem_append]
    exact ⟨text_connective_ne_empty logic, h.1.tokens_ne_empty, h.2.rowAfter_ne_empty⟩

end

/-! ### Reading -/

mutual

/-- The tokens of a part are read as one factor. -/
theorem Part.Solid.run?_tokens {part : Part} (h : part.Solid) (outer : List (Level String))
    (level : Level String) :
    Reader.run? ⟨outer, level, false⟩ part.tokens =
      some ⟨outer, level.factor part.formula, true⟩ := by
  cases part with
  | single text => rfl
  | group parts =>
    rw [Part.Solid] at h
    match parts with
    | [] => exact absurd rfl h.1
    | (logic, first) :: rest =>
      rw [Part.tokens, Reader.run?, Reader.step?, Option.bind_some, Reader.run?_append, Part.row,
        Reader.run?_append, h.2.1.run?_tokens, Option.bind_some, h.2.2.run?_rowAfter,
        Option.bind_some, Part.formula, Part.rowFormula]
      rfl

theorem Part.AllSolid.run?_rowAfter {parts : List (Logic × Part)} (h : Part.AllSolid parts)
    (outer : List (Level String)) (level : Level String) :
    Reader.run? ⟨outer, level, true⟩ (Part.rowAfter parts) =
      some ⟨outer, Part.levelAfter level parts, true⟩ := by
  match parts with
  | [] => rfl
  | (logic, part) :: rest =>
    rw [Part.rowAfter, Reader.run?, Reader.step?, Option.bind_some, Reader.run?_append,
      h.1.run?_tokens, Option.bind_some, h.2.run?_rowAfter, Part.levelAfter]

end

theorem Part.AllSolid.write_row_eq_empty_iff {parts : List (Logic × Part)}
    (h : Part.AllSolid parts) : write (Part.row parts) = "" ↔ parts = [] := by
  rw [h.write_row, h.joinedTests_eq_empty_iff]

/-! ### Rows with one connective -/

theorem Part.levelAfter_and {rest : List (Logic × Part)} (h : ∀ part ∈ rest, part.1 = .and)
    (level : Level String) :
    Part.levelAfter level rest =
      ⟨level.alternatives, level.factors ++ rest.map (·.2.formula)⟩ := by
  induction rest generalizing level with
  | nil => simp [Part.levelAfter]
  | cons first rest ih =>
    obtain ⟨logic, part⟩ := first
    obtain ⟨hfirst, hrest⟩ := List.forall_mem_cons.mp h
    cases hfirst
    rw [Part.levelAfter, ih hrest]
    simp [Level.connect, Level.factor]

theorem Part.holds_levelAfter_or {rest : List (Logic × Part)} (h : ∀ part ∈ rest, part.1 = .or)
    (level : Level String) (truth : String → Prop) :
    (Part.levelAfter level rest).formula.Holds truth ↔
      level.formula.Holds truth ∨
        (Formula.join .or (rest.map (·.2.formula))).Holds truth := by
  induction rest generalizing level with
  | nil => simp [Part.levelAfter]
  | cons first rest ih =>
    obtain ⟨logic, part⟩ := first
    obtain ⟨hfirst, hrest⟩ := List.forall_mem_cons.mp h
    cases hfirst
    have hlevel : ((level.connect .or).factor part.formula).formula.Holds truth ↔
        level.formula.Holds truth ∨ part.formula.Holds truth := by
      simp [Level.formula, Level.connect, Level.factor, or_assoc, or_and_right, exists_or]
    rw [Part.levelAfter, ih hrest, hlevel]
    simp [or_assoc]

/-- A row with one connective throughout joins its parts by it. -/
theorem Part.holds_rowFormula {logic : Logic} {parts : List (Logic × Part)} (hne : parts ≠ [])
    (h : ∀ part ∈ parts, part.1 = logic) (truth : String → Prop) :
    (Part.rowFormula parts).Holds truth ↔
      (Formula.join logic (parts.map (·.2.formula))).Holds truth := by
  match parts with
  | [] => exact absurd rfl hne
  | (first, part) :: rest =>
    have hrest := (List.forall_mem_cons.mp h).2
    rw [Part.rowFormula]
    cases logic with
    | and =>
      rw [Part.levelAfter_and hrest]
      simp [Level.formula, Level.factor, Level.empty]
    | or =>
      have hpart : (Level.empty.factor part.formula).formula.Holds truth ↔
          part.formula.Holds truth := by
        simp [Level.formula, Level.factor, Level.empty]
      rw [Part.holds_levelAfter_or hrest, hpart]
      simp

end DocMapper
