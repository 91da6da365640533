import DocMapper.Tracking.Atomics
import Mathlib.Logic.Basic
/-!
# What an operand tells of the pending values

A pending value that is alone is the operand itself, and several are the items of a list. So the
operand tells which values are pending, but for one confusion: a single list of several values has
the operand that these values have when they are pending themselves.
-/

namespace DocMapper

/-- One of the two is a single list that holds the several values of the other. -/
def Mistakable (xs ys : List Value) : Prop :=
  (xs = [.list ys] ∧ 2 ≤ ys.length) ∨ (ys = [.list xs] ∧ 2 ≤ xs.length)

/-- A single value that is no list of several values. -/
def Unlisted (xs : List Value) : Prop :=
  ∃ v, xs = [v] ∧ ∀ items, v = .list items → items.length < 2

variable {xs ys : List Value}

theorem Mistakable.ne (h : Mistakable xs ys) : xs ≠ ys := by
  rintro rfl
  rcases h with ⟨heq, hlength⟩ | ⟨heq, hlength⟩ <;>
  · rw [heq, List.length_singleton] at hlength
    omega

theorem singleOrList_of_two_le (h : 2 ≤ xs.length) : singleOrList xs = .list xs := by
  match xs with
  | [] => rfl
  | [v] => simp at h
  | _ :: _ :: _ => rfl

theorem singleOrList_eq_iff (hxs : xs ≠ []) (hys : ys ≠ []) :
    singleOrList xs = singleOrList ys ↔ xs = ys ∨ Mistakable xs ys := by
  have hcases : ∀ {values : List Value}, values ≠ [] →
      (∃ v, values = [v]) ∨ 2 ≤ values.length := by
    intro values hne
    match values with
    | [] => exact absurd rfl hne
    | [v] => exact Or.inl ⟨v, rfl⟩
    | _ :: _ :: _ => exact Or.inr (by simp)
  constructor
  · intro heq
    rcases hcases hxs with ⟨v, rfl⟩ | hx <;> rcases hcases hys with ⟨w, rfl⟩ | hy
    · exact Or.inl (congrArg (fun v => [v]) heq)
    · rw [singleOrList_of_two_le hy] at heq
      exact Or.inr (Or.inl ⟨congrArg (fun v => [v]) heq, hy⟩)
    · rw [singleOrList_of_two_le hx] at heq
      exact Or.inr (Or.inr ⟨congrArg (fun v => [v]) heq.symm, hx⟩)
    · rw [singleOrList_of_two_le hx, singleOrList_of_two_le hy] at heq
      exact Or.inl (Value.list.inj heq)
  · rintro (rfl | ⟨rfl, hy⟩ | ⟨rfl, hx⟩)
    · rfl
    · exact (singleOrList_of_two_le hy).symm
    · exact singleOrList_of_two_le hx

/-- Every list but such a value is mistaken for some other. -/
theorem unlisted_iff (hxs : xs ≠ []) :
    Unlisted xs ↔ ∀ ys, ys ≠ [] → ¬ Mistakable xs ys := by
  constructor
  · rintro ⟨v, rfl, hv⟩ ys - (⟨heq, hy⟩ | ⟨-, hx⟩)
    · have hlength := hv ys (List.cons.inj heq).1
      omega
    · simp at hx
  · intro h
    match xs with
    | [] => exact absurd rfl hxs
    | [v] =>
      refine ⟨v, rfl, fun items hv => Nat.lt_of_not_le fun hlength => ?_⟩
      have hne : items ≠ [] := by
        rintro rfl
        simp at hlength
      exact h items hne (Or.inl ⟨by rw [hv], hlength⟩)
    | v :: w :: rest => exact absurd (Or.inr ⟨rfl, by simp⟩) (h [.list (v :: w :: rest)] (by simp))

namespace ListAtomics

/-- Values are pending as appended ones, or as removed ones where embedded documents are removed
like any others. -/
inductive InParts : (List Value → ListAtomics) → Bool → Prop where
  | add (structuredAsSet : Bool) : InParts .add structuredAsSet
  | remove : InParts .remove false

variable {pending : List Value → ListAtomics} {structuredAsSet : Bool}

theorem InParts.op_eq_iff (h : InParts pending structuredAsSet) (current : List Value) :
    (pending xs).op current structuredAsSet = (pending ys).op current structuredAsSet ↔
      singleOrList xs = singleOrList ys := by
  cases h with
  | add => simp [op]
  | remove => simp [op]

/-- The same change comes of the same values only, unless one of the two lists may be mistaken for
the other. So the values are told by the change exactly if they are a single one, and no list of
several. -/
theorem operand_tells_iff (h : InParts pending structuredAsSet) (hxs : xs ≠ []) (hys : ys ≠ [])
    (current : List Value) :
    (((pending xs).op current structuredAsSet = (pending ys).op current structuredAsSet → xs = ys) ↔
        ¬ Mistakable xs ys) ∧
      ((∀ zs, zs ≠ [] →
          (pending xs).op current structuredAsSet = (pending zs).op current structuredAsSet →
            xs = zs) ↔ Unlisted xs) := by
  have htells : ∀ {zs}, zs ≠ [] →
      (((pending xs).op current structuredAsSet = (pending zs).op current structuredAsSet →
        xs = zs) ↔ ¬ Mistakable xs zs) := by
    intro zs hzs
    rw [h.op_eq_iff current, singleOrList_eq_iff hxs hzs, or_imp, and_iff_right id]
    exact ⟨fun hsame hmistakable => hmistakable.ne (hsame hmistakable), fun hnot hmistakable =>
      absurd hmistakable hnot⟩
  refine ⟨htells hys, ?_⟩
  rw [unlisted_iff hxs]
  exact forall₂_congr fun zs hzs => htells hzs

/-- A list of one value is told from the value. -/
theorem operand_tells_iff_nested :
    let nested : List Value := [.list [.int 1]]
    nested ≠ [] ∧ ¬ Mistakable nested [.int 1] ∧
      (remove nested).op [] false ≠ (remove [.int 1]).op [] false := by
  have hnested : ([.list [.int 1]] : List Value) ≠ [] := by simp
  have hplain : ¬ Mistakable [.list [.int 1]] [.int 1] := by
    rintro (⟨-, hlength⟩ | ⟨heq, -⟩)
    · simp at hlength
    · cases heq
  refine ⟨hnested, hplain, fun hsame => ?_⟩
  have heq := (operand_tells_iff .remove hnested (by simp) []).1.mpr hplain hsame
  cases heq

/-- A list that is appended as one item and its two items that are appended themselves are stored by
the same change, so no reader tells them apart. -/
theorem appended_list_mistaken :
    let nested : List Value := [.list [.int 1, .int 2]]
    let single : List Value := [.int 1, .int 2]
    (add nested).op [] false = (add single).op [] false ∧ nested ≠ single ∧
      ¬ ∃ reader : AtomicOp → List Value,
        ∀ xs, xs ≠ [] → reader ((add xs).op [] false) = xs := by
  have hsame : (add [.list [.int 1, .int 2]]).op [] false = (add [.int 1, .int 2]).op [] false := rfl
  refine ⟨hsame, by simp, ?_⟩
  rintro ⟨reader, hreader⟩
  have hnested := hreader [.list [.int 1, .int 2]] (by simp)
  have hsingle := hreader [.int 1, .int 2] (by simp)
  rw [hsame, hsingle] at hnested
  cases hnested

end ListAtomics

end DocMapper
