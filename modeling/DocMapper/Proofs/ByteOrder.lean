import Mathlib
/-!
# The order of texts

Texts are compared by their characters, which is to compare them by their bytes in UTF-8: of two
characters the greater has the greater byte where their bytes first differ, and that is before
either of them ends.
-/

namespace DocMapper.Text

/-- The bytes of a text in UTF-8. -/
def bytes (s : String) : List UInt8 :=
  s.toUTF8.data.toList

theorem bytes_eq_flatMap (s : String) : bytes s = s.toList.flatMap String.utf8EncodeChar := by
  have hencoded : s.toByteArray = s.toList.utf8Encode := by
    conv_lhs => rw [← String.ofList_toList (s := s)]
    rfl
  rw [bytes, String.toUTF8_eq_toByteArray, hencoded, List.utf8Encode]
  simp

/-! ### Characters -/

section Bytes

variable {m n : Nat}

theorem ofNat_lt_iff (hm : m < 256) (hn : n < 256) : UInt8.ofNat m < UInt8.ofNat n ↔ m < n := by
  rw [UInt8.lt_iff_toNat_lt, UInt8.toNat_ofNat', UInt8.toNat_ofNat']
  omega

theorem ofNat_eq_iff (hm : m < 256) (hn : n < 256) : UInt8.ofNat m = UInt8.ofNat n ↔ m = n := by
  rw [← UInt8.toNat_inj, UInt8.toNat_ofNat', UInt8.toNat_ofNat']
  omega

/-- Of two numbers the greater has the greater last digit, if all digits before are the same. -/
theorem div_lt_or_mod_lt (h : m < n) (base : Nat) :
    m / base < n / base ∨ m / base = n / base ∧ m % base < n % base := by
  rcases (Nat.div_le_div_right h.le : m / base ≤ n / base).lt_or_eq with hlt | heq
  · exact Or.inl hlt
  · refine Or.inr ⟨heq, ?_⟩
    have hm := Nat.div_add_mod m base
    have hn := Nat.div_add_mod n base
    rw [heq] at hm
    omega

end Bytes

theorem toNat_val_lt (c : Char) : c.val.toNat < 0x110000 := by
  rcases c.valid with h | h
  · omega
  · exact h.2

theorem utf8EncodeChar_append_lt {c d : Char} (h : c < d) (cs ds : List UInt8) :
    String.utf8EncodeChar c ++ cs < String.utf8EncodeChar d ++ ds := by
  have hlt : c.val.toNat < d.val.toNat := h
  have hd := toNat_val_lt d
  unfold String.utf8EncodeChar
  generalize c.val.toNat = m at hlt
  generalize d.val.toNat = n at hlt hd
  -- What the digits to base 64 tell matters only if both characters have four bytes.
  have hlast := div_lt_or_mod_lt hlt 64
  have hthird : m / 64 < n / 64 → _ := fun h => div_lt_or_mod_lt h 64
  have hsecond : m / 64 / 64 < n / 64 / 64 → _ := fun h => div_lt_or_mod_lt h 64
  simp only [Nat.div_div_eq_div_mul] at hthird hsecond
  have hm : m / 262144 % 8 = m / 262144 := Nat.mod_eq_of_lt (by omega)
  have hn : n / 262144 % 8 = n / 262144 := Nat.mod_eq_of_lt (by omega)
  dsimp only
  split_ifs <;>
    simp (disch := omega) only [List.cons_append, List.nil_append, List.cons_lt_cons_iff,
      ofNat_lt_iff, ofNat_eq_iff] <;>
    omega

/-! ### Texts -/

theorem flatMap_utf8EncodeChar_lt {cs ds : List Char} (h : cs < ds) :
    cs.flatMap String.utf8EncodeChar < ds.flatMap String.utf8EncodeChar := by
  induction h with
  | @nil d ds =>
    have hbytes : String.utf8EncodeChar d ≠ [] := String.utf8EncodeChar_ne_nil
    obtain ⟨b, bs, hd⟩ := List.exists_cons_of_ne_nil hbytes
    rw [List.flatMap_nil, List.flatMap_cons, hd]
    exact List.nil_lt_cons b _
  | rel hlt => exact utf8EncodeChar_append_lt hlt _ _
  | cons _ ih => exact List.append_left_lt ih

theorem bytes_lt_iff {s t : String} : bytes s < bytes t ↔ s < t := by
  rw [bytes_eq_flatMap, bytes_eq_flatMap, String.lt_iff_toList_lt]
  refine ⟨fun h => ?_, flatMap_utf8EncodeChar_lt⟩
  rcases lt_trichotomy s.toList t.toList with hlt | heq | hgt
  · exact hlt
  · exact absurd (heq ▸ h) (List.lt_irrefl _)
  · exact absurd h (List.lt_asymm (flatMap_utf8EncodeChar_lt hgt))

end DocMapper.Text
