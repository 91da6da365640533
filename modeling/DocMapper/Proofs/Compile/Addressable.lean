import DocMapper.Proofs.Compile.Filling
/-!
# Stems of which every placeholder is read as a whole

A configuration is accepted if its stem is a name. Digits behind a name make a longer name, so the
reader of placeholders then takes the stem and the number together, and stops where they end. Behind
any other stem the reader gives up too early: at once where no letter begins it, or else at its
first character that is not of a name.
-/

namespace DocMapper

namespace Inline

variable {cs more : List Char}

theorem isName_of_nameAt_eq_self (hne : cs ≠ []) (h : nameAt cs = cs) :
    Config.isName cs = true := by
  obtain ⟨name, rest, hsplit, hname, hend⟩ := exists_of_nameAt_ne_nil (h.symm ▸ hne)
  have hwhole : cs = name := by
    rw [← h, hsplit, nameAt_append_of_isName hname hend]
  rw [hwhole]
  exact hname

theorem isName_of_isName_append (hne : cs ≠ []) (h : Config.isName (cs ++ more) = true) :
    Config.isName cs = true := by
  cases cs with
  | nil => exact absurd rfl hne
  | cons first rest =>
    rw [List.cons_append, Config.isName, List.all_append, Bool.and_eq_true, Bool.and_eq_true] at h
    obtain ⟨hletter, hrest, -⟩ := h
    rw [Config.isName, hletter, hrest]
    rfl

variable {stem : String} {index : Nat}

/-- A number alone is no name, so the name of a placeholder begins within its stem. -/
theorem isName_of_isName_nameOf (h : Config.isName (Registry.nameOf stem index).toList = true) :
    Config.isName stem.toList = true := by
  rw [Registry.nameOf, String.toList_append, Nat.toList_repr] at h
  refine isName_of_isName_append (fun hempty => ?_) h
  rw [hempty, List.nil_append] at h
  have hnone : nameAt (Nat.toDigits 10 index) = [] := (isNumeric_toDigits index).nameAt
  rw [nameAt_of_isName h] at hnone
  exact Nat.toDigits_ne_nil hnone

theorem toList_nameOf_ne_nil (stem : String) (index : Nat) :
    (Registry.nameOf stem index).toList ≠ [] := by
  rw [Registry.nameOf, String.toList_append, Nat.toList_repr]
  exact List.append_ne_nil_of_right_ne_nil _ Nat.toDigits_ne_nil

/-- A colon can stand behind any text without becoming part of a name there. -/
theorem not_cuts_placeholder (a : List Char) (key : String) : ¬ Cuts a (":" ++ key).toList := by
  rw [toList_placeholder]
  refine not_cuts_of_head? (fun c hc => ?_) a
  cases hc
  rfl

theorem toList_fill_around {before after key : String} (params : Fields Value)
    (hname : Config.isName key.toList = true)
    (hend : ∀ c ∈ after.toList.head?, Text.isNameChar c = false) :
    (fill (before ++ (":" ++ key) ++ after) params).toList =
      (fill before params).toList ++ (Piece.named key.toList).filled params ++
        (fill after params).toList := by
  rw [fill_append params (not_cuts_of_head? hend _),
    fill_append params (not_cuts_placeholder before.toList key), String.toList_append,
    String.toList_append, toList_fill_placeholder params hname]

end Inline

namespace Config

theorem check_eq_ok_iff {config : Config} :
    config.check = .ok () ↔ isName config.stem.toList = true := by
  rw [check, isValid]
  split
  · next hvalid => simp [hvalid]
  · next hvalid => simp [hvalid]

/-- A configuration is accepted exactly if the reader takes the name of each of its placeholders as
a whole, whatever follows it that could not go on with a name. Then filling, with any parameters,
puts in the value of just this name or leaves the placeholder as it stands, and what is around it is
filled by itself. -/
theorem check_iff_read_whole (config : Config) :
    (config.check = .ok () ↔
      ∀ (index : Nat) (rest : List Char), (∀ c ∈ rest.head?, Text.isNameChar c = false) →
        Inline.nameAt ((Registry.nameOf config.stem index).toList ++ rest) =
          (Registry.nameOf config.stem index).toList) ∧
    (config.check = .ok () →
      ∀ (params : Fields Value) (before after : String) (index : Nat),
        (∀ c ∈ after.toList.head?, Text.isNameChar c = false) →
        (Inline.fill (before ++ (":" ++ Registry.nameOf config.stem index) ++ after)
            params).toList =
          (Inline.fill before params).toList ++
            (Inline.Piece.named (Registry.nameOf config.stem index).toList).filled params ++
            (Inline.fill after params).toList) := by
  rw [check_eq_ok_iff]
  refine ⟨⟨fun hstem index rest hend => ?_, fun hwhole => ?_⟩,
    fun hstem params before after index hend => ?_⟩
  · exact Inline.nameAt_append_of_isName (Inline.isName_nameOf hstem index) hend
  · have hzero := hwhole 0 [] nofun
    rw [List.append_nil] at hzero
    exact Inline.isName_of_isName_nameOf
      (Inline.isName_of_nameAt_eq_self (Inline.toList_nameOf_ne_nil config.stem 0) hzero)
  · exact Inline.toList_fill_around params (Inline.isName_nameOf hstem index) hend

/-- The stem holds a digit and an underscore, and parameters are there whose names are shorter or
longer than that of the placeholder. -/
theorem check_iff_read_whole_crowded :
    (⟨"p_1", " ", .default⟩ : Config).check = .ok () ∧
      (∀ c ∈ "-p_123".toList.head?, Text.isNameChar c = false) ∧
      Inline.nameAt ("p_12".toList ++ "-p_123".toList) = "p_12".toList ∧
      (Inline.fill ("::p_1" ++ (":" ++ "p_12") ++ "-p_123")
          [("p_1", .int 1), ("p_12", .string ":p_1"), ("p_123", .int 3)]).toList =
        ":1".toList ++ "':p_1'".toList ++ "-p_123".toList := by
  obtain ⟨hread, hfill⟩ := check_iff_read_whole ⟨"p_1", " ", .default⟩
  have hend : ∀ c ∈ "-p_123".toList.head?, Text.isNameChar c = false := by
    intro c hc
    cases hc
    rfl
  exact ⟨rfl, hend, hread.mp rfl 2 _ hend,
    hfill rfl [("p_1", .int 1), ("p_12", .string ":p_1"), ("p_123", .int 3)] "::p_1" "-p_123" 2
      hend⟩

end Config

end DocMapper
