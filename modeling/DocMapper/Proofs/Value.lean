import DocMapper.Proofs.Fields
import DocMapper.Value
/-!
# Values that are the same

Equality of values tells NaN from itself and does not tell the two zeros apart. Two values are the
same here if they differ in the sign of zeros at most, so that equal values are the same and every
value is the same as itself.
-/

namespace DocMapper

namespace Double

/-- The number, with one zero for both. -/
def normal (d : Double) : Double :=
  if d.orderKey = 0 then .zero false else d

theorem magnitude_of_orderKey_eq_zero {d : Double} (h : d.orderKey = 0) :
    d.bits.toNat % 2 ^ 63 = 0 := by
  unfold orderKey at h
  simp only [Nat.pow_eq] at h
  split at h <;> omega

theorem bits_eq_of_orderKey_eq {a b : Double} (h : a.orderKey = b.orderKey)
    (hne : a.orderKey ≠ 0) : a = b := by
  have ha := a.bits.toNat_lt
  have hb := b.bits.toNat_lt
  have hbits : a.bits.toNat = b.bits.toNat := by
    unfold orderKey negative at h hne
    simp only [Nat.pow_eq] at h hne
    split at h <;> split at h <;> simp_all <;> omega
  cases a
  cases b
  exact congrArg Double.mk (UInt64.toNat_inj.mp hbits)

theorem normal_eq_of_eqv {a b : Double} (h : a.eqv b = true) : a.normal = b.normal := by
  have hkey : a.orderKey = b.orderKey := by simp_all [eqv]
  unfold normal
  by_cases hzero : a.orderKey = 0
  · rw [if_pos hzero, if_pos (hkey ▸ hzero)]
  · rw [if_neg hzero, if_neg (hkey ▸ hzero), bits_eq_of_orderKey_eq hkey hzero]

theorem isNaN_normal (d : Double) : d.normal.isNaN = d.isNaN := by
  unfold normal
  split
  · next h =>
    have hmagnitude := magnitude_of_orderKey_eq_zero h
    have hfield : d.exponentField = 0 := by
      unfold exponentField
      simp only [Nat.pow_eq]
      omega
    simp [isNaN, hfield, show (zero false).exponentField = 0 by decide]
  · rfl

theorem orderKey_normal (d : Double) : d.normal.orderKey = d.orderKey := by
  unfold normal
  split
  · next h => rw [h]; decide
  · rfl

theorem eqv_normal (a b : Double) : a.eqv b.normal = a.eqv b := by
  rw [eqv, isNaN_normal, orderKey_normal, eqv]

end Double

namespace Value

mutual

def normal : Value → Value
  | .float d => .float d.normal
  | .list items => .list (normalItems items)
  | .map entries => .map (normalEntries entries)
  | other => other

def normalItems : List Value → List Value
  | [] => []
  | item :: rest => normal item :: normalItems rest

def normalEntries : List (String × Value) → List (String × Value)
  | [] => []
  | (key, v) :: rest => (key, normal v) :: normalEntries rest

end

theorem normalItems_eq_map (items : List Value) : normalItems items = items.map normal := by
  induction items with
  | nil => rfl
  | cons item rest ih => rw [normalItems, ih, List.map_cons]

theorem normalEntries_eq_map (entries : List (String × Value)) :
    normalEntries entries = entries.map fun entry => (entry.1, entry.2.normal) := by
  induction entries with
  | nil => rfl
  | cons entry rest ih =>
    obtain ⟨k, v⟩ := entry
    rw [normalEntries, ih, List.map_cons]

theorem get?_normalEntries (entries : Fields Value) (key : String) :
    Fields.get? (normalEntries entries) key = (Fields.get? entries key).map normal := by
  induction entries with
  | nil => rfl
  | cons entry rest ih =>
    obtain ⟨k, v⟩ := entry
    rw [normalEntries, Fields.get?_cons, Fields.get?_cons, ih]
    split <;> rfl

mutual

theorem normal_eq_of_eqv {a b : Value} (h : a.eqv b = true) : a.normal = b.normal := by
  match a with
  | .float d =>
    cases b with
    | float e =>
      rw [eqv] at h
      rw [normal, normal, Double.normal_eq_of_eqv h]
    | _ => simp [eqv] at h
  | .list items =>
    cases b with
    | list others =>
      rw [eqv] at h
      rw [normal, normal, normalItems_eq_of_eqv h]
    | _ => simp [eqv] at h
  | .map entries =>
    cases b with
    | map others =>
      rw [eqv] at h
      rw [normal, normal, normalEntries_eq_of_eqv h]
    | _ => simp [eqv] at h
  | .null | .bool _ | .int _ | .string _ | .dateTime _ | .link _ =>
    cases b <;> simp_all [eqv]

theorem normalItems_eq_of_eqv {as bs : List Value} (h : eqvItems as bs = true) :
    normalItems as = normalItems bs := by
  match as, bs with
  | [], [] => rfl
  | [], _ :: _ => simp [eqvItems] at h
  | _ :: _, [] => simp [eqvItems] at h
  | a :: as, b :: bs =>
    rw [eqvItems, Bool.and_eq_true] at h
    rw [normalItems, normalItems, normal_eq_of_eqv h.1, normalItems_eq_of_eqv h.2]

theorem normalEntries_eq_of_eqv {as bs : List (String × Value)} (h : eqvEntries as bs = true) :
    normalEntries as = normalEntries bs := by
  match as, bs with
  | [], [] => rfl
  | [], _ :: _ => simp [eqvEntries] at h
  | _ :: _, [] => simp [eqvEntries] at h
  | (k, a) :: as, (l, b) :: bs =>
    rw [eqvEntries, Bool.and_eq_true, Bool.and_eq_true, decide_eq_true_eq] at h
    rw [normalEntries, normalEntries, h.1.1, normal_eq_of_eqv h.1.2, normalEntries_eq_of_eqv h.2]

end

mutual

theorem eqv_normal (a b : Value) : a.eqv b.normal = a.eqv b := by
  match b with
  | .float e => cases a <;> simp [eqv, normal, Double.eqv_normal]
  | .list items =>
    cases a with
    | list others => rw [normal, eqv, eqv, eqvItems_normalItems others items]
    | _ => simp [eqv, normal]
  | .map entries =>
    cases a with
    | map others => rw [normal, eqv, eqv, eqvEntries_normalEntries others entries]
    | _ => simp [eqv, normal]
  | .null | .bool _ | .int _ | .string _ | .dateTime _ | .link _ => rw [normal] <;> simp

theorem eqvItems_normalItems (as bs : List Value) : eqvItems as (normalItems bs) = eqvItems as bs := by
  match as, bs with
  | [], [] => rfl
  | [], _ :: _ => simp [eqvItems, normalItems]
  | _ :: _, [] => rfl
  | a :: as, b :: bs =>
    rw [normalItems, eqvItems, eqvItems, eqv_normal a b, eqvItems_normalItems as bs]

theorem eqvEntries_normalEntries (as bs : List (String × Value)) :
    eqvEntries as (normalEntries bs) = eqvEntries as bs := by
  match as, bs with
  | [], [] => rfl
  | [], _ :: _ => simp [eqvEntries, normalEntries]
  | _ :: _, [] => rfl
  | (k, a) :: as, (l, b) :: bs =>
    rw [normalEntries, eqvEntries, eqvEntries, eqv_normal a b, eqvEntries_normalEntries as bs]

end

theorem occursIn_normal (v : Value) (items : List Value) :
    v.normal.occursIn items = v.occursIn items := by
  rw [occursIn, occursIn]
  congr 1
  funext item
  exact eqv_normal item v

/-! ### Equality either way round -/

mutual

theorem eqv_comm (a b : Value) : a.eqv b = b.eqv a := by
  match a with
  | .float d =>
    cases b with
    | float e => rw [eqv, eqv, Double.eqv_comm]
    | _ => rfl
  | .list items =>
    cases b with
    | list others => rw [eqv, eqv, eqvItems_comm]
    | _ => rfl
  | .map entries =>
    cases b with
    | map others => rw [eqv, eqv, eqvEntries_comm]
    | _ => rfl
  | .null | .bool _ | .int _ | .string _ | .dateTime _ | .link _ =>
    cases b <;> simp [eqv, eq_comm]

theorem eqvItems_comm (as bs : List Value) : eqvItems as bs = eqvItems bs as := by
  match as, bs with
  | [], [] => rfl
  | [], _ :: _ => rfl
  | _ :: _, [] => rfl
  | a :: as, b :: bs => rw [eqvItems, eqvItems, eqv_comm a b, eqvItems_comm as bs]

theorem eqvEntries_comm (as bs : List (String × Value)) : eqvEntries as bs = eqvEntries bs as := by
  match as, bs with
  | [], [] => rfl
  | [], _ :: _ => rfl
  | _ :: _, [] => rfl
  | (k, a) :: as, (l, b) :: bs =>
    rw [eqvEntries, eqvEntries, eqv_comm a b, eqvEntries_comm as bs, Bool.decide_congr eq_comm]

end

/-! ### Values that are the same -/

/-- The same up to the sign of zeros. The entries of two maps are compared name by name. -/
def Same : Value → Value → Prop
  | .map as, .map bs =>
    ∀ key, (Fields.get? as key).map normal = (Fields.get? bs key).map normal
  | a, b => a.normal = b.normal

/-- Nothing is the same as nothing only. -/
def SameOption : Option Value → Option Value → Prop
  | none, none => True
  | some a, some b => a.Same b
  | _, _ => False

theorem same_of_normal_eq {a b : Value} (h : a.normal = b.normal) : a.Same b := by
  unfold Same
  split
  · next as bs =>
    intro key
    rw [normal, normal, Value.map.injEq] at h
    rw [← get?_normalEntries, ← get?_normalEntries, h]
  · exact h

theorem sameOption_of_normal_eq {a? b? : Option Value} (h : a?.map normal = b?.map normal) :
    SameOption a? b? := by
  cases a? <;> cases b?
  · trivial
  · simp at h
  · simp at h
  · exact same_of_normal_eq (Option.some.inj h)

theorem sameOption_refl (v? : Option Value) : SameOption v? v? :=
  sameOption_of_normal_eq rfl

theorem same_list_iff {v : Value} {items : List Value} :
    v.Same (.list items) ↔ ∃ others, v = .list others ∧ others.map normal = items.map normal := by
  cases v <;> simp [Same, normal, normalItems_eq_map]

theorem same_map_iff {v : Value} {entries : Fields Value} :
    v.Same (.map entries) ↔ ∃ others, v = .map others ∧
      ∀ key, (Fields.get? others key).map normal = (Fields.get? entries key).map normal := by
  cases v <;> simp [Same, normal]

/-! ### Null read as nothing -/

/-- The value, if it is not null. -/
def present (v? : Option Value) : Option Value :=
  v?.filter fun v => !v.isNull

theorem isNull_normal (v : Value) : v.normal.isNull = v.isNull := by
  cases v <;> rfl

theorem same_present_of_normal_eq {a? b? : Option Value} (h : a?.map normal = b?.map normal) :
    SameOption (present a?) (present b?) := by
  apply sameOption_of_normal_eq
  have hcomm : ∀ v? : Option Value, (present v?).map normal = present (v?.map normal) := by
    intro v?
    cases v? with
    | none => rfl
    | some v => cases hnull : v.isNull <;> simp [present, Option.filter, isNull_normal, hnull]
  rw [hcomm, hcomm, h]

theorem present_of_not_null {v : Value} (h : v.isNull = false) : present (some v) = some v := by
  simp [present, Option.filter, h]

theorem sameOption_present_iff {v : Value} (h : v.isNull = false) (r? : Option Value) :
    SameOption (present r?) (present (some v)) ↔ SameOption r? (some v) := by
  rw [present_of_not_null h]
  cases r? with
  | none => exact Iff.rfl
  | some r =>
    cases hr : r.isNull with
    | false => rw [present_of_not_null hr]
    | true =>
      have hnull : r = .null := by cases r <;> simp_all [isNull]
      subst hnull
      cases v <;> simp_all [present, isNull, SameOption, Same, normal]

theorem present_present (v? : Option Value) : present (present v?) = present v? := by
  simp [present]

theorem present_getD_null (v? : Option Value) : present (some (v?.getD .null)) = present v? := by
  cases v? <;> rfl

theorem same_present_self_iff (v? : Option Value) :
    SameOption (present v?) v? ↔ v? ≠ some .null := by
  cases v? with
  | none => simp [present, SameOption]
  | some v =>
    cases hnull : v.isNull with
    | true =>
      have hv : v = .null := by cases v <;> simp_all [isNull]
      simp [hv, present, isNull, SameOption]
    | false =>
      rw [present_of_not_null hnull]
      refine iff_of_true (sameOption_refl _) ?_
      rintro hv
      rw [Option.some.inj hv] at hnull
      cases hnull

end Value

end DocMapper
