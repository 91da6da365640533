/-!
Named entries in the order in which the names first came.
-/

namespace DocMapper.Entries

variable {α : Type}

/-- Puts a value in the place of the one of the same name, or at the end. -/
def assign (name : String) (a : α) : List (String × α) → List (String × α)
  | [] => [(name, a)]
  | (other, b) :: rest =>
    if other = name then (name, a) :: rest else (other, b) :: assign name a rest

theorem mem_assign {name : String} {a : α} {entries : List (String × α)} {entry : String × α}
    (h : entry ∈ assign name a entries) : entry = (name, a) ∨ entry ∈ entries := by
  induction entries with
  | nil => exact Or.inl (List.mem_singleton.mp h)
  | cons first rest ih =>
    obtain ⟨other, b⟩ := first
    rw [assign] at h
    split at h
    · exact (List.mem_cons.mp h).imp_right (List.mem_cons_of_mem _)
    · rcases List.mem_cons.mp h with rfl | hrest
      · exact Or.inr List.mem_cons_self
      · exact (ih hrest).imp_right (List.mem_cons_of_mem _)

end DocMapper.Entries
