/-!
# Pieces between separators

A list cut at every occurrence of a separator. There is always one piece more than there are
separators; pieces may be empty, and joining them with the separator gives the list back.
-/

set_option autoImplicit false

namespace LineTally

variable {α : Type} [DecidableEq α]

/-- The pieces of a list between the separators. -/
def separated (separator : α) : List α → List (List α)
  | [] => [[]]
  | x :: rest =>
    if x = separator then [] :: separated separator rest
    else
      match separated separator rest with
      | [] => [[x]]
      | first :: others => (x :: first) :: others

theorem separated_ne_nil (separator : α) (xs : List α) : separated separator xs ≠ [] := by
  cases xs with
  | nil => simp [separated]
  | cons x rest =>
    rw [separated]
    split
    · simp
    · split <;> simp

/-- Nothing is lost: the pieces joined again are the list. -/
theorem intercalate_separated (separator : α) (xs : List α) :
    [separator].intercalate (separated separator xs) = xs := by
  induction xs with
  | nil => simp [separated]
  | cons x rest ih =>
    have hne := separated_ne_nil separator rest
    rw [separated]
    split
    · next h =>
      obtain ⟨first, others, hs⟩ := List.exists_cons_of_ne_nil hne
      rw [hs] at ih ⊢
      rw [List.intercalate_cons_cons, ih]
      simp [h]
    · split
      · next hs => exact absurd hs hne
      · next first others hs =>
        rw [hs] at ih
        cases others with
        | nil => simp_all
        | cons second others =>
          rw [List.intercalate_cons_cons] at ih ⊢
          simp [← ih]

end LineTally
