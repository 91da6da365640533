import DocMapper.Proofs.Compile.Writing
/-!
# Filling is one substitution

A text reads, from left to right and in one way only, as characters that stand for themselves and
placeholders, each of them a colon with the longest name behind it. Filling copies the characters and
puts in the literals of the placeholders, all of them at once: what was filled in is not read again.
Two texts can therefore be filled one by one, unless a placeholder lies across the place where they
meet; and a string that was filled in ends at its own closing quote, whatever stands in it.
-/

namespace DocMapper.Inline

/-! ### What a text consists of -/

inductive Piece where
  | plain (c : Char)
  | named (name : List Char)

/-- A placeholder stands for the literal of its parameter, which for a string is the one in single
quotes. Without a parameter, and where it is null, it stands for itself. -/
def Piece.filled (params : Fields Value) : Piece → List Char
  | plain c => [c]
  | named name =>
    match Fields.get? params (String.ofList name) with
    | none | some .null => ':' :: name
    | some (.string s) => (Text.singleQuoted s).toList
    | some v => v.literal.toList

/-- A text read from left to right. A name behind a colon is read as far as it goes. -/
inductive Reads : List Char → List Piece → Prop where
  | nil : Reads [] []
  | plain {c : Char} {rest : List Char} {pieces : List Piece}
    (hc : c = ':' → ∀ d ∈ rest.head?, Text.isAsciiLetter d = false) (h : Reads rest pieces) :
    Reads (c :: rest) (.plain c :: pieces)
  | named {name rest : List Char} {pieces : List Piece} (hname : Config.isName name = true)
    (hend : ∀ d ∈ rest.head?, Text.isNameChar d = false) (h : Reads rest pieces) :
    Reads (':' :: (name ++ rest)) (.named name :: pieces)

variable {a b name rest : List Char} {pieces others : List Piece}

theorem nameAt_append_of_isName (hname : Config.isName name = true)
    (hend : ∀ d ∈ rest.head?, Text.isNameChar d = false) : nameAt (name ++ rest) = name := by
  rw [nameAt_append hend, nameAt_of_isName hname]

/-- Where a name is found, it is one, and it is the longest. -/
theorem exists_of_nameAt_ne_nil (h : nameAt a ≠ []) :
    ∃ name rest, a = name ++ rest ∧ Config.isName name = true ∧
      ∀ d ∈ rest.head?, Text.isNameChar d = false := by
  cases a with
  | nil => exact absurd rfl h
  | cons c cs =>
    have hletter : Text.isAsciiLetter c = true := by
      rw [nameAt] at h
      split at h
      · assumption
      · exact absurd rfl h
    refine ⟨c :: cs.takeWhile Text.isNameChar, cs.dropWhile Text.isNameChar, ?_, ?_, ?_⟩
    · rw [List.cons_append, List.takeWhile_append_dropWhile]
    · rw [Config.isName, hletter, Bool.true_and, List.all_eq_true]
      exact fun d hd => List.mem_takeWhile_imp hd
    · intro d hd
      have hfirst := List.head?_dropWhile_not Text.isNameChar cs
      rw [Option.mem_def.mp hd] at hfirst
      exact hfirst

theorem exists_reads (text : List Char) : ∃ pieces, Reads text pieces := by
  match text with
  | [] => exact ⟨[], .nil⟩
  | c :: rest =>
    by_cases hplaceholder : c = ':' ∧ nameAt rest ≠ []
    · obtain ⟨rfl, hfound⟩ := hplaceholder
      obtain ⟨name, after, rfl, hname, hend⟩ := exists_of_nameAt_ne_nil hfound
      obtain ⟨pieces, hpieces⟩ := exists_reads after
      exact ⟨_, .named hname hend hpieces⟩
    · obtain ⟨pieces, hpieces⟩ := exists_reads rest
      refine ⟨_, .plain (fun hc => nameAt_eq_nil_iff.mp ?_) hpieces⟩
      exact not_not.mp fun hne => hplaceholder ⟨hc, hne⟩
termination_by text.length

/-- A letter behind a colon is not read by itself. -/
theorem Reads.eq_named (hname : Config.isName name = true)
    (hend : ∀ d ∈ rest.head?, Text.isNameChar d = false)
    (h : Reads (':' :: (name ++ rest)) pieces) :
    ∃ more, Reads rest more ∧ pieces = .named name :: more := by
  have hnameAt := nameAt_append_of_isName hname hend
  generalize htext : ':' :: (name ++ rest) = text at h
  cases h with
  | nil => cases htext
  | plain hc =>
    obtain ⟨hcolon, rfl⟩ := List.cons.inj htext
    rw [nameAt_eq_nil_iff.mpr (hc hcolon.symm)] at hnameAt
    rw [← hnameAt] at hname
    cases hname
  | @named name' rest' more hname' hend' hmore =>
    have hsame := (List.cons.inj htext).2
    rw [hsame, nameAt_append_of_isName hname' hend'] at hnameAt
    subst hnameAt
    obtain rfl := List.append_cancel_left hsame
    exact ⟨more, hmore, rfl⟩

theorem Reads.eq_plain {c : Char} (hc : c = ':' → ∀ d ∈ rest.head?, Text.isAsciiLetter d = false)
    (h : Reads (c :: rest) pieces) : ∃ more, Reads rest more ∧ pieces = .plain c :: more := by
  generalize htext : c :: rest = text at h
  cases h with
  | nil => cases htext
  | plain _ hmore =>
    obtain ⟨rfl, rfl⟩ := List.cons.inj htext
    exact ⟨_, hmore, rfl⟩
  | named hname hend _ =>
    obtain ⟨hcolon, rfl⟩ := List.cons.inj htext
    have hnone := nameAt_eq_nil_iff.mpr (hc hcolon)
    rw [nameAt_append_of_isName hname hend] at hnone
    rw [hnone] at hname
    cases hname

theorem Reads.unique {text : List Char} (h : Reads text pieces) (h' : Reads text others) :
    others = pieces := by
  induction h generalizing others with
  | nil =>
    cases h'
    rfl
  | plain hc _ ih =>
    obtain ⟨more, hmore, rfl⟩ := h'.eq_plain hc
    rw [ih hmore]
  | named hname hend _ ih =>
    obtain ⟨more, hmore, rfl⟩ := h'.eq_named hname hend
    rw [ih hmore]

/-! ### Filling piece by piece -/

variable (params : Fields Value)

theorem fillFrom_append (a b : List Char) :
    fillFrom params a.length (a ++ b) = fillFrom params 0 b := by
  induction a with
  | nil => rfl
  | cons c rest ih => exact ih

theorem replacement_nil : replacement params [] = [':'] := by
  unfold replacement
  split <;> rfl

theorem replacement_of_isName (h : Config.isName name = true) :
    replacement params name = (Piece.named name).filled params := by
  have hne : name.isEmpty = false := by
    cases name with
    | nil => cases h
    | cons => rfl
  rw [replacement, hne, Piece.filled]
  cases Fields.get? params (String.ofList name) with
  | none => rfl
  | some v =>
    cases v with
    | null | string => rfl
    | bool | int | float | dateTime | link | list | map =>
      exact (String.toList_ofList).symm

theorem Reads.fillFrom {text : List Char} (h : Reads text pieces) :
    fillFrom params 0 text = pieces.flatMap (Piece.filled params) := by
  induction h with
  | nil => rfl
  | @plain c rest _ hc _ ih =>
    have hcopied : Inline.fillFrom params 0 (c :: rest) = c :: Inline.fillFrom params 0 rest := by
      rw [Inline.fillFrom]
      split
      · next hcolon =>
        rw [nameAt_eq_nil_iff.mpr (hc hcolon), replacement_nil, hcolon]
        rfl
      · rfl
    rw [hcopied, ih]
    rfl
  | @named name rest _ hname hend _ ih =>
    rw [Inline.fillFrom, if_pos rfl, nameAt_append_of_isName hname hend, fillFrom_append, ih,
      replacement_of_isName params hname]
    rfl

theorem toList_fill {text : String} (h : Reads text.toList pieces) :
    (fill text params).toList = pieces.flatMap (Piece.filled params) := by
  rw [fill, String.toList_ofList, h.fillFrom]

/-! ### Texts that meet -/

/-- A placeholder lies across the place where two texts meet: they part its colon from its name, or
the name itself. -/
def Cuts (a b : List Char) : Prop :=
  ∃ before run c after, a = before ++ ':' :: run ∧ b = c :: after ∧
    Config.isName (run ++ [c]) = true

theorem Cuts.append (h : Cuts a b) (front : List Char) : Cuts (front ++ a) b := by
  obtain ⟨before, run, c, after, rfl, rfl, hname⟩ := h
  exact ⟨front ++ before, run, c, after, (List.append_assoc ..).symm, rfl, hname⟩

theorem not_cuts_of_head? (hb : ∀ c ∈ b.head?, Text.isNameChar c = false) (a : List Char) :
    ¬ Cuts a b := by
  rintro ⟨before, run, c, after, -, rfl, hname⟩
  have hc := all_isNameChar_of_isName hname c (List.mem_append_right _ (List.mem_singleton_self c))
  rw [hb c rfl] at hc
  cases hc

/-- What follows a part of the first text that ends a name goes on ending it. -/
theorem head?_append_of {P : Char → Prop} (hrest : ∀ d ∈ rest.head?, P d)
    (hb : rest = [] → ∀ d ∈ b.head?, P d) : ∀ d ∈ (rest ++ b).head?, P d := by
  cases rest with
  | nil => exact hb rfl
  | cons => exact hrest

theorem Reads.append (h : Reads a pieces) (h' : Reads b others) (hcuts : ¬ Cuts a b) :
    Reads (a ++ b) (pieces ++ others) := by
  induction h with
  | nil => exact h'
  | @plain c rest _ hc _ ih =>
    -- only a colon at the very end could find a name in the second text
    refine .plain (fun hcolon => head?_append_of (hc hcolon) ?_) (ih fun h => hcuts (h.append [c]))
    rintro rfl d hd
    obtain ⟨after, rfl⟩ := List.head?_eq_some_iff.mp hd
    refine Bool.eq_false_iff.mpr fun hletter => hcuts ⟨[], [], d, after, ?_, rfl, ?_⟩
    · rw [hcolon, List.nil_append]
    · rw [List.nil_append, Config.isName, hletter]
      rfl
  | @named name rest _ hname hend _ ih =>
    have hlater : ¬ Cuts rest b := fun h => hcuts (h.append (':' :: name))
    rw [List.cons_append, List.append_assoc]
    refine .named hname (head?_append_of hend ?_) (ih hlater)
    rintro rfl d hd
    obtain ⟨after, rfl⟩ := List.head?_eq_some_iff.mp hd
    refine Bool.eq_false_iff.mpr fun hchar => hcuts ⟨[], name, d, after, ?_, rfl, ?_⟩
    · rw [List.append_nil, List.nil_append]
    · exact isName_append hname (List.forall_mem_singleton.mpr hchar)

theorem fill_append {a b : String} (h : ¬ Cuts a.toList b.toList) :
    fill (a ++ b) params = fill a params ++ fill b params := by
  obtain ⟨pieces, hpieces⟩ := exists_reads a.toList
  obtain ⟨others, hothers⟩ := exists_reads b.toList
  have hwhole : Reads (a ++ b).toList (pieces ++ others) := by
    rw [String.toList_append]
    exact hpieces.append hothers h
  apply String.toList_inj.mp
  rw [String.toList_append, toList_fill params hwhole, toList_fill params hpieces,
    toList_fill params hothers, List.flatMap_append]

/-! ### Strings that were filled in -/

/-- The characters up to a closing quote, and what stands behind it. A backslash takes the next
character as it is. -/
def readBody? : List Char → Option (List Char × List Char)
  | [] => none
  | '\'' :: after => some ([], after)
  | '\\' :: c :: rest => (readBody? rest).map fun read => (c :: read.1, read.2)
  | c :: rest => (readBody? rest).map fun read => (c :: read.1, read.2)

/-- The string that is written at the start of a text, and what stands behind its closing quote. -/
def readString? : List Char → Option (List Char × List Char)
  | '\'' :: rest => readBody? rest
  | _ => none

theorem readBody?_singleQuotedChar (c : Char) (rest : List Char) :
    readBody? (Text.singleQuotedChar c ++ rest) =
      (readBody? rest).map fun read => (c :: read.1, read.2) := by
  unfold Text.singleQuotedChar
  split
  · rfl
  · next hplain =>
    obtain ⟨hquote, hbackslash⟩ := not_or.mp hplain
    exact readBody?.eq_4 c rest hquote (fun _ _ heq _ => hbackslash heq)

theorem readString?_singleQuoted (s : String) (rest : List Char) :
    readString? ((Text.singleQuoted s).toList ++ rest) = some (s.toList, rest) := by
  have hbody : ∀ cs : List Char,
      readBody? (cs.flatMap Text.singleQuotedChar ++ '\'' :: rest) = some (cs, rest) := by
    intro cs
    induction cs with
    | nil => rfl
    | cons c more ih =>
      rw [List.flatMap_cons, List.append_assoc, readBody?_singleQuotedChar, ih]
      rfl
  rw [Text.singleQuoted, String.toList_ofList, List.cons_append, List.append_assoc]
  exact hbody s.toList

variable {params}

theorem toList_placeholder (key : String) : (":" ++ key).toList = ':' :: key.toList := by
  rw [String.toList_append]
  rfl

variable (params) in
theorem toList_fill_placeholder {key : String} (hname : Config.isName key.toList = true) :
    (fill (":" ++ key) params).toList = (Piece.named key.toList).filled params := by
  have hreads : Reads (":" ++ key).toList [.named key.toList] := by
    have hend : ∀ d ∈ ([] : List Char).head?, Text.isNameChar d = false := nofun
    have hplaceholder := Reads.named hname hend .nil
    rwa [List.append_nil, ← toList_placeholder] at hplaceholder
  rw [toList_fill params hreads, List.flatMap_singleton]

theorem fill_placeholder {key s : String} (hname : Config.isName key.toList = true)
    (hget : Fields.get? params key = some (.string s)) :
    fill (":" ++ key) params = Text.singleQuoted s := by
  apply String.toList_inj.mp
  rw [toList_fill_placeholder params hname, Piece.filled, String.ofList_toList, hget]

variable (params) in
/-- Filling replaces the placeholders of a text all at once, piece by piece, and a string that is
filled in is read back as itself, in front of whatever follows it. -/
theorem fill_simultaneous :
    (∀ text : String, ∃ pieces, (∀ others, Reads text.toList others ↔ others = pieces) ∧
      (fill text params).toList = pieces.flatMap (Piece.filled params)) ∧
    (∀ a b : String, ¬ Cuts a.toList b.toList →
      fill (a ++ b) params = fill a params ++ fill b params) ∧
    ∀ (a key b s : String), Config.isName key.toList = true →
      (∀ c ∈ b.toList.head?, Text.isNameChar c = false) →
      Fields.get? params key = some (.string s) →
      fill (a ++ (":" ++ key) ++ b) params = fill a params ++ Text.singleQuoted s ++ fill b params ∧
      readString? (Text.singleQuoted s ++ fill b params).toList =
        some (s.toList, (fill b params).toList) := by
  refine ⟨fun text => ?_, fun a b => fill_append params, fun a key b s hname hend hget => ⟨?_, ?_⟩⟩
  · obtain ⟨pieces, hpieces⟩ := exists_reads text.toList
    refine ⟨pieces, fun others => ⟨hpieces.unique, ?_⟩, toList_fill params hpieces⟩
    rintro rfl
    exact hpieces
  · have hbefore : ¬ Cuts a.toList (":" ++ key).toList := by
      rw [toList_placeholder]
      refine not_cuts_of_head? (fun c hc => ?_) _
      cases hc
      rfl
    rw [fill_append params (not_cuts_of_head? hend _), fill_append params hbefore,
      fill_placeholder hname hget]
  · rw [String.toList_append]
    exact readString?_singleQuoted s _

/-- A list and a name with a quote in it. -/
def asked : Fields Value :=
  [("ids", .list [.int 1, .link ⟨12, 3⟩]), ("who", .string "o'n\\ :who")]

theorem fill_simultaneous_adjacent :
    Reads ":ids,".toList [.named "ids".toList, .plain ','] ∧
      (fill ":ids," asked).toList = "[1, #12:3],".toList ∧
      ¬ Cuts "::who:".toList (":" ++ "who").toList ∧
      Config.isName "who".toList = true ∧
      Fields.get? asked "who" = some (.string "o'n\\ :who") ∧
      fill ("::who:" ++ (":" ++ "who")) asked =
        ":'o\\'n\\\\ :who':" ++ "'o\\'n\\\\ :who'" ∧
      fill ("::who:" ++ (":" ++ "who") ++ " :who_1") asked =
        ":'o\\'n\\\\ :who':" ++ "'o\\'n\\\\ :who'" ++ " :who_1" ∧
      readString? ("'o\\'n\\\\ :who'" ++ " :who_1").toList =
        some ("o'n\\ :who".toList, " :who_1".toList) := by
  obtain ⟨hpieces, hsplit, hstring⟩ := fill_simultaneous asked
  have hcomma : ∀ c ∈ [','].head?, Text.isNameChar c = false := by
    intro c hc
    cases hc
    rfl
  have hname : Config.isName "ids".toList = true := rfl
  have hreads : Reads ":ids,".toList [.named "ids".toList, .plain ','] :=
    Reads.named hname hcomma (.plain nofun .nil)
  obtain ⟨pieces, honly, hids⟩ := hpieces ":ids,"
  obtain rfl := (honly _).mp hreads
  have hcuts : ¬ Cuts "::who:".toList (":" ++ "who").toList := by
    refine not_cuts_of_head? (fun c hc => ?_) _
    cases hc
    rfl
  have hend : ∀ c ∈ " :who_1".toList.head?, Text.isNameChar c = false := by
    intro c hc
    cases hc
    rfl
  obtain ⟨hfill, hread⟩ := hstring "::who:" "who" " :who_1" _ rfl hend rfl
  exact ⟨hreads, hids, hcuts, rfl, rfl, hsplit _ _ hcuts, hfill, hread⟩

end DocMapper.Inline
