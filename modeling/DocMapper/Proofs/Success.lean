/-!
# Success of a sequence of steps

A sequence that may fail succeeds exactly if each of its steps does.
-/

namespace DocMapper.Success

variable {ε α β σ : Type}

theorem ok_bind (a : α) (f : α → Except ε β) : (.ok a >>= f) = f a := rfl

@[simp]
theorem bind_eq_ok {x : Except ε α} {f : α → Except ε β} {b : β} :
    (x >>= f) = .ok b ↔ ∃ a, x = .ok a ∧ f a = .ok b := by
  cases x with
  | error e => simp [Bind.bind, Except.bind]
  | ok a => simp [Bind.bind, Except.bind]

@[simp]
theorem pure_eq_ok {a b : α} : (pure a : Except ε α) = .ok b ↔ a = b := by
  simp [Pure.pure, Except.pure]

@[simp]
theorem map_eq_ok {x : Except ε α} {f : α → β} {b : β} :
    x.map f = .ok b ↔ ∃ a, x = .ok a ∧ f a = b := by
  cases x with
  | error e => simp [Except.map]
  | ok a => simp [Except.map]

@[simp]
theorem bind_eq_error {x : Except ε α} {f : α → Except ε β} {e : ε} :
    (x >>= f) = .error e ↔ x = .error e ∨ ∃ a, x = .ok a ∧ f a = .error e := by
  cases x with
  | error e' => simp [Bind.bind, Except.bind]
  | ok a => simp [Bind.bind, Except.bind]

@[simp]
theorem map_eq_error {x : Except ε α} {f : α → β} {e : ε} : x.map f = .error e ↔ x = .error e := by
  cases x with
  | error e' => simp [Except.map]
  | ok a => simp [Except.map]

theorem map_toOption_eq_some {x : Except ε α} {f : α → β} {b : β} :
    x.toOption.map f = some b ↔ ∃ a, x = .ok a ∧ f a = b := by
  cases x with
  | error e => simp [Except.toOption]
  | ok a => simp [Except.toOption]

theorem map_toOption_eq_none {x : Except ε α} {f : α → β} :
    x.toOption.map f = none ↔ ∃ e, x = .error e := by
  cases x with
  | error e => simp [Except.toOption]
  | ok a => simp [Except.toOption]

/-- Every result of a traversal comes from one of the items. -/
theorem exists_of_mapM_eq_ok {f : α → Except ε β} {items : List α} {results : List β}
    (h : items.mapM f = .ok results) : ∀ b ∈ results, ∃ a ∈ items, f a = .ok b := by
  induction items generalizing results with
  | nil =>
    obtain rfl := pure_eq_ok.mp h
    exact nofun
  | cons a rest ih =>
    rw [List.mapM_cons] at h
    obtain ⟨b, hb, hbind⟩ := bind_eq_ok.mp h
    obtain ⟨later, hlater, hpure⟩ := bind_eq_ok.mp hbind
    obtain rfl := pure_eq_ok.mp hpure
    refine List.forall_mem_cons.mpr ⟨⟨a, List.mem_cons_self, hb⟩, fun c hc => ?_⟩
    obtain ⟨d, hd, hfd⟩ := ih hlater c hc
    exact ⟨d, List.mem_cons_of_mem a hd, hfd⟩

/-- Each item is recovered from what was made of it. -/
theorem mapM_map_eq_ok {f : α → Except ε β} {g : β → α} {items : List β}
    (h : ∀ b ∈ items, f (g b) = .ok b) : (items.map g).mapM f = .ok items := by
  induction items with
  | nil => rfl
  | cons b rest ih =>
    obtain ⟨hb, hrest⟩ := List.forall_mem_cons.mp h
    rw [List.map_cons, List.mapM_cons, hb, ih hrest]
    rfl

theorem mapM_eq_ok_self {f : α → Except ε α} {items : List α} (h : ∀ a ∈ items, f a = .ok a) :
    items.mapM f = .ok items := by
  have hmap := mapM_map_eq_ok (g := id) h
  rwa [List.map_id] at hmap

/-- A step that succeeds on what was made of a source, and on nothing else, is undone by a
traversal. -/
theorem mapM_eq_ok_iff {f : α → Except ε β} {item : σ → α} {result : σ → β}
    (h : ∀ a b, f a = .ok b ↔ ∃ source, a = item source ∧ b = result source) {items : List α}
    {results : List β} : items.mapM f = .ok results ↔
      ∃ sources : List σ, items = sources.map item ∧ results = sources.map result := by
  induction items generalizing results with
  | nil =>
    rw [List.mapM_nil, pure_eq_ok]
    refine ⟨fun heq => ⟨[], rfl, heq.symm⟩, ?_⟩
    rintro ⟨sources, hitems, rfl⟩
    rw [List.eq_nil_of_map_eq_nil hitems.symm, List.map_nil]
  | cons a rest ih =>
    rw [List.mapM_cons, bind_eq_ok]
    constructor
    · rintro ⟨b, hb, hbind⟩
      obtain ⟨later, hlater, hpure⟩ := bind_eq_ok.mp hbind
      obtain rfl := pure_eq_ok.mp hpure
      obtain ⟨source, rfl, rfl⟩ := (h a b).mp hb
      obtain ⟨sources, rfl, rfl⟩ := ih.mp hlater
      exact ⟨source :: sources, rfl, rfl⟩
    · rintro ⟨sources, hitems, rfl⟩
      obtain ⟨source, later, rfl, rfl, rfl⟩ := List.map_eq_cons_iff.mp hitems.symm
      refine ⟨result source, (h _ _).mpr ⟨source, rfl, rfl⟩, ?_⟩
      rw [ih.mpr ⟨later, rfl, rfl⟩]
      rfl

/-- A traversal fails as one of the items does. -/
theorem exists_of_mapM_eq_error {f : α → Except ε β} {items : List α} {e : ε}
    (h : items.mapM f = .error e) : ∃ a ∈ items, f a = .error e := by
  induction items with
  | nil => cases h
  | cons a rest ih =>
    rw [List.mapM_cons] at h
    rcases bind_eq_error.mp h with ha | ⟨b, -, hbind⟩
    · exact ⟨a, List.mem_cons_self, ha⟩
    · rcases bind_eq_error.mp hbind with hrest | ⟨results, -, hpure⟩
      · obtain ⟨c, hc, hfc⟩ := ih hrest
        exact ⟨c, List.mem_cons_of_mem a hc, hfc⟩
      · cases hpure

/-- Steps that succeed and keep a property, one by one, succeed together and keep it. -/
theorem exists_foldlM_eq_ok {f : β → α → Except ε β} {P : β → Prop} {items : List α}
    (hkeeps : ∀ a ∈ items, ∀ b, P b → ∃ next, f b a = .ok next ∧ P next) {b : β} (h : P b) :
    ∃ last, items.foldlM f b = .ok last ∧ P last := by
  induction items generalizing b with
  | nil => exact ⟨b, rfl, h⟩
  | cons a rest ih =>
    obtain ⟨mid, hmid, hkept⟩ := hkeeps a List.mem_cons_self b h
    obtain ⟨last, hlast, hend⟩ := ih (fun a hmem => hkeeps a (List.mem_cons_of_mem _ hmem)) hkept
    refine ⟨last, ?_, hend⟩
    rw [List.foldlM_cons, hmid]
    exact hlast

end DocMapper.Success
