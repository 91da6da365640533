import DocMapper.Fields
import Mathlib
/-!
# Look-up and order of named entries

What merging, dropping and filtering entries do to a look-up, and that writing and dropping keep the
entries in order. Entries in order have no name twice, so a look-up finds each of them.
-/

namespace DocMapper.Fields

variable {α : Type}

theorem has_eq_true_iff {fields : Fields α} {key : String} :
    has fields key = true ↔ ∃ a, get? fields key = some a := by
  rw [has, Option.isSome_iff_exists]

theorem get?_put (fields : Fields α) (key other : String) (a : α) :
    get? (put fields key a) other = if other = key then some a else get? fields other := by
  by_cases h : other = key
  · simp [h]
  · simp [h, get?_put_of_ne fields a h]

theorem get?_drop (fields : Fields α) (key other : String) :
    get? (drop fields key) other = if other = key then none else get? fields other := by
  by_cases h : other = key
  · simp [h]
  · simp [h, get?_drop_of_ne fields h]

/-- Of the merged entries the last of a name counts, and before them those that were there. -/
theorem get?_merge (fields more : Fields α) (key : String) :
    get? (merge fields more) key = (get? (ofList more) key).or (get? fields key) := by
  induction more using List.reverseRecOn with
  | nil => simp [merge, ofList]
  | append_singleton more entry ih =>
    simp only [ofList, merge, List.foldl_append, List.foldl_cons, List.foldl_nil] at ih ⊢
    rw [get?_put, get?_put]
    by_cases h : key = entry.1
    · simp [h]
    · simpa [h] using ih

theorem get?_filter_name (fields : Fields α) (keep : String → Bool) (key : String) :
    get? (fields.filter fun entry => keep entry.1) key =
      if keep key then get? fields key else none := by
  induction fields with
  | nil => simp
  | cons entry rest ih =>
    obtain ⟨k, a⟩ := entry
    by_cases hk : k = key
    · subst hk
      by_cases hkeep : keep k
      · simp [hkeep, get?_cons]
      · simpa [hkeep] using ih
    · by_cases hkeep : keep k
      · simp only [List.filter_cons, hkeep, if_true, get?_cons, hk, if_false]
        exact ih
      · simp only [List.filter_cons, hkeep, get?_cons, hk, if_false]
        exact ih

theorem mem_names_of_get? {fields : Fields α} {key : String} {a : α}
    (h : get? fields key = some a) : (key, a) ∈ fields := by
  induction fields with
  | nil => simp at h
  | cons entry rest ih =>
    obtain ⟨k, b⟩ := entry
    rw [get?_cons] at h
    split at h
    · next hk =>
      cases h
      simp [hk]
    · exact List.mem_cons_of_mem _ (ih h)

theorem mem_names_iff {fields : Fields α} {key : String} :
    key ∈ names fields ↔ ∃ a, get? fields key = some a := by
  induction fields with
  | nil => simp [names]
  | cons entry rest ih =>
    obtain ⟨k, a⟩ := entry
    rw [get?_cons]
    by_cases hk : k = key
    · simp [names, hk]
    · rw [if_neg hk, ← ih]
      simp [names, Ne.symm hk]

theorem mem_names_ofList {entries : List (String × α)} {key : String} :
    key ∈ names (ofList entries) ↔ key ∈ entries.map Prod.fst := by
  induction entries using List.reverseRecOn with
  | nil => simp [ofList, merge, names]
  | append_singleton entries entry ih =>
    have hlast : ofList (entries ++ [entry]) = put (ofList entries) entry.1 entry.2 := by
      simp [ofList, merge]
    rw [hlast, List.map_append, List.mem_append, ← ih, mem_names_iff, mem_names_iff]
    simp only [get?_put, List.map_cons, List.map_nil, List.mem_singleton]
    by_cases hkey : key = entry.1 <;> simp [hkey]

/-- A new name comes to those that are there. -/
theorem names_put_perm {fields : Fields α} {key : String} (h : get? fields key = none) (a : α) :
    (names (put fields key a)).Perm (key :: names fields) := by
  induction fields with
  | nil => exact .refl _
  | cons entry rest ih =>
    obtain ⟨k, b⟩ := entry
    rw [get?_cons] at h
    split at h
    · cases h
    · next hk =>
      rw [put]
      split
      · exact .refl _
      · exact ((ih h).cons k).trans (.swap key k _)

/-! ### Entries in order -/

instance (fields : Fields α) : Decidable (Sorted fields) :=
  inferInstanceAs (Decidable ((names fields).Pairwise (· < ·)))

theorem sorted_nil : Sorted ([] : Fields α) :=
  List.Pairwise.nil

theorem sorted_cons_iff {key : String} {a : α} {rest : Fields α} :
    Sorted ((key, a) :: rest) ↔ (∀ entry ∈ rest, key < entry.1) ∧ Sorted rest := by
  simp [Sorted, names]

theorem mem_put {fields : Fields α} {key : String} {a : α} {entry : String × α}
    (h : entry ∈ put fields key a) : entry = (key, a) ∨ entry ∈ fields := by
  induction fields with
  | nil => simpa [put] using h
  | cons first rest ih =>
    obtain ⟨k, b⟩ := first
    rw [put] at h
    split at h
    · simpa using h
    split at h
    · rcases List.mem_cons.mp h with h | h
      · exact Or.inl h
      · exact Or.inr (List.mem_cons_of_mem _ h)
    · rcases List.mem_cons.mp h with h | h
      · exact Or.inr (h ▸ List.mem_cons_self)
      · exact (ih h).imp_right (List.mem_cons_of_mem _)

theorem mem_merge {fields more : Fields α} {entry : String × α} (h : entry ∈ merge fields more) :
    entry ∈ fields ∨ entry ∈ more := by
  induction more generalizing fields with
  | nil => exact Or.inl h
  | cons first rest ih =>
    rcases ih h with h | h
    · rcases mem_put h with rfl | h
      · exact Or.inr List.mem_cons_self
      · exact Or.inl h
    · exact Or.inr (List.mem_cons_of_mem first h)

theorem mem_foldl_merge {documents : List (Fields α)} {merged : Fields α} {entry : String × α}
    (h : entry ∈ documents.foldl merge merged) :
    entry ∈ merged ∨ ∃ document ∈ documents, entry ∈ document := by
  induction documents generalizing merged with
  | nil => exact Or.inl h
  | cons document rest ih =>
    rcases ih h with hmerged | ⟨later, hmem, hentry⟩
    · exact (mem_merge hmerged).imp_right fun hentry => ⟨document, List.mem_cons_self, hentry⟩
    · exact Or.inr ⟨later, List.mem_cons_of_mem _ hmem, hentry⟩

theorem Sorted.put {fields : Fields α} (h : Sorted fields) (key : String) (a : α) :
    Sorted (put fields key a) := by
  induction fields with
  | nil => simp [Fields.put, sorted_cons_iff, sorted_nil]
  | cons first rest ih =>
    obtain ⟨k, b⟩ := first
    obtain ⟨hfirst, hrest⟩ := sorted_cons_iff.mp h
    rw [Fields.put]
    split
    · next hlt =>
      refine sorted_cons_iff.mpr ⟨?_, h⟩
      intro entry hmem
      rcases List.mem_cons.mp hmem with rfl | hmem
      · exact hlt
      · exact hlt.trans (hfirst entry hmem)
    · next hnot =>
      split
      · next heq => exact sorted_cons_iff.mpr ⟨fun entry hmem => heq ▸ hfirst entry hmem, hrest⟩
      · next hne =>
        have hlt : k < key := lt_of_le_of_ne (not_lt.mp hnot) hne
        refine sorted_cons_iff.mpr ⟨?_, ih hrest⟩
        intro entry hmem
        rcases mem_put hmem with rfl | hmem
        · exact hlt
        · exact hfirst entry hmem

theorem Sorted.merge {fields : Fields α} (h : Sorted fields) (more : Fields α) :
    Sorted (merge fields more) := by
  induction more generalizing fields with
  | nil => exact h
  | cons entry rest ih => exact ih (h.put entry.1 entry.2)

theorem sorted_ofList (entries : List (String × α)) : Sorted (ofList entries) :=
  sorted_nil.merge entries

theorem Sorted.filter {fields : Fields α} (h : Sorted fields) (keep : String × α → Bool) :
    Sorted (fields.filter keep) := by
  rw [Sorted, names] at h ⊢
  exact h.sublist (List.filter_sublist.map Prod.fst)

theorem Sorted.drop {fields : Fields α} (h : Sorted fields) (key : String) :
    Sorted (drop fields key) :=
  h.filter _

theorem Sorted.nodup {fields : Fields α} (h : Sorted fields) : (names fields).Nodup :=
  List.Pairwise.imp (fun hlt => ne_of_lt hlt) h

theorem Sorted.get?_eq_some_iff {fields : Fields α} (h : Sorted fields) {key : String} {a : α} :
    get? fields key = some a ↔ (key, a) ∈ fields := by
  refine ⟨mem_names_of_get?, fun hmem => ?_⟩
  induction fields with
  | nil => simp at hmem
  | cons first rest ih =>
    obtain ⟨k, b⟩ := first
    obtain ⟨hfirst, hrest⟩ := sorted_cons_iff.mp h
    rw [get?_cons]
    rcases List.mem_cons.mp hmem with heq | hmem
    · cases heq
      simp
    · rw [if_neg (ne_of_lt (hfirst _ hmem))]
      exact ih hrest hmem

theorem Sorted.ext {fields others : Fields α} (h : Sorted fields) (hothers : Sorted others)
    (hsame : ∀ key, get? fields key = get? others key) : fields = others := by
  have hmem : ∀ entry : String × α, entry ∈ fields ↔ entry ∈ others := by
    rintro ⟨key, a⟩
    rw [← h.get?_eq_some_iff, ← hothers.get?_eq_some_iff, hsame key]
  have hnodup : ∀ {entries : Fields α}, Sorted entries → entries.Nodup :=
    fun hsorted => List.Nodup.of_map Prod.fst hsorted.nodup
  have hperm : fields.Perm others :=
    (List.perm_ext_iff_of_nodup (hnodup h) (hnodup hothers)).mpr hmem
  apply hperm.eq_of_pairwise _ (List.pairwise_map.mp h) (List.pairwise_map.mp hothers)
  intro first second _ _ hlt hgt
  exact absurd hlt (lt_asymm hgt)

/-- Merging entries in order is writing each of them. -/
theorem Sorted.get?_ofList {fields : Fields α} (h : Sorted fields) (key : String) :
    get? (ofList fields) key = get? fields key := by
  induction fields with
  | nil => rfl
  | cons first rest ih =>
    obtain ⟨k, a⟩ := first
    obtain ⟨hfirst, hrest⟩ := sorted_cons_iff.mp h
    have hcons : ofList ((k, a) :: rest) = Fields.merge [(k, a)] rest := rfl
    rw [hcons, get?_merge, ih hrest, get?_cons, get?_cons]
    by_cases hk : k = key
    · subst hk
      have hnone : get? rest k = none := by
        rw [Option.eq_none_iff_forall_ne_some]
        intro b hb
        exact (ne_of_lt (hfirst _ (mem_names_of_get? hb))) rfl
      simp [hnone]
    · simp [hk]

/-- An entry behind all others is written last. -/
theorem put_of_lt {fields : Fields α} {key : String} (h : ∀ entry ∈ fields, entry.1 < key) (a : α) :
    put fields key a = fields ++ [(key, a)] := by
  induction fields with
  | nil => rfl
  | cons first rest ih =>
    obtain ⟨k, b⟩ := first
    have hk : k < key := h (k, b) List.mem_cons_self
    have hrest : ∀ entry ∈ rest, entry.1 < key :=
      fun entry hmem => h entry (List.mem_cons_of_mem _ hmem)
    rw [put, if_neg (not_lt_of_gt hk), if_neg (ne_of_lt hk), ih hrest, List.cons_append]

theorem Sorted.merge_eq_append {fields more : Fields α} (h : Sorted (fields ++ more)) :
    Fields.merge fields more = fields ++ more := by
  induction more generalizing fields with
  | nil => exact (List.append_nil fields).symm
  | cons first rest ih =>
    obtain ⟨k, a⟩ := first
    have hbefore : ∀ entry ∈ fields, entry.1 < k := by
      intro entry hmem
      rw [Sorted, names, List.map_append, List.pairwise_append] at h
      exact h.2.2 entry.1 (List.mem_map_of_mem hmem) k List.mem_cons_self
    have happend : fields ++ (k, a) :: rest = Fields.put fields k a ++ rest := by
      rw [put_of_lt hbefore, List.append_assoc, List.singleton_append]
    rw [happend] at h ⊢
    exact ih h

/-- Entries that are in order stay as they are when they are written one by one. -/
theorem Sorted.ofList_eq_self {fields : Fields α} (h : Sorted fields) : ofList fields = fields :=
  Sorted.merge_eq_append h

end DocMapper.Fields
