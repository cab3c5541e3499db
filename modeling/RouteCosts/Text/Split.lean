/-!
# Splitting at a separator

`split` cuts a list at every occurrence of a separator. A list with `n` separators has `n + 1`
pieces, some of them perhaps empty, and putting the separator back between them gives the list
again (`intercalate_split`). Lists without separator are not cut (`split_of_not_mem`), and a list
around a separator is cut there (`split_append_cons`).
-/

namespace RouteCosts.Text

variable {α : Type} [DecidableEq α]

/-- The pieces between the occurrences of a separator. -/
def split (separator : α) : List α → List (List α)
  | [] => [[]]
  | x :: rest =>
    if x = separator then [] :: split separator rest
    else match split separator rest with
      | [] => [[x]]
      | piece :: pieces => (x :: piece) :: pieces

theorem split_ne_nil (separator : α) (xs : List α) : split separator xs ≠ [] := by
  cases xs with
  | nil => simp [split]
  | cons x rest =>
    rw [split]
    split
    · simp
    · split <;> simp

theorem split_cons_of_ne {separator x : α} (h : x ≠ separator) (rest : List α) :
    ∃ piece pieces, split separator rest = piece :: pieces ∧
      split separator (x :: rest) = (x :: piece) :: pieces := by
  cases hs : split separator rest with
  | nil => exact absurd hs (split_ne_nil _ _)
  | cons piece pieces => exact ⟨piece, pieces, rfl, by simp [split, h, hs]⟩

/-- Nothing is lost by splitting. -/
theorem intercalate_split (separator : α) (xs : List α) :
    [separator].intercalate (split separator xs) = xs := by
  induction xs with
  | nil => rfl
  | cons x rest ih =>
    by_cases h : x = separator
    · subst h
      cases hs : split x rest with
      | nil => exact absurd hs (split_ne_nil _ _)
      | cons piece pieces =>
        rw [hs] at ih
        simpa [split, hs, List.intercalate, List.intersperse] using ih
    · obtain ⟨piece, pieces, hs, hx⟩ := split_cons_of_ne h rest
      rw [hs] at ih
      rw [hx, ← ih]
      cases pieces <;> simp [List.intercalate, List.intersperse]

/-- No piece holds the separator. -/
theorem not_mem_of_mem_split {separator : α} {xs piece : List α}
    (h : piece ∈ split separator xs) : separator ∉ piece := by
  induction xs generalizing piece with
  | nil => simp_all [split]
  | cons x rest ih =>
    by_cases hx : x = separator
    · simp only [split, hx, if_true, List.mem_cons] at h
      rcases h with rfl | h
      · simp
      · exact ih h
    · obtain ⟨first, pieces, hs, hc⟩ := split_cons_of_ne hx rest
      rw [hc, List.mem_cons] at h
      rw [hs] at ih
      rcases h with rfl | h
      · have : separator ∉ first := ih List.mem_cons_self
        simp [this, Ne.symm hx]
      · exact ih (List.mem_cons_of_mem _ h)

/-! ### Splitting what was put together -/

section Append
variable {separator : α}

omit [DecidableEq α] in
/-- A separator that fails a test is not in a list of which every element passes it. -/
theorem not_mem_of_forall {test : α → Bool} {xs : List α} (h : ∀ x ∈ xs, test x = true)
    (hs : test separator = false) : separator ∉ xs := fun hm => by
  rw [h separator hm] at hs
  cases hs

theorem split_append_of_not_mem {front rest piece : List α} {pieces : List (List α)}
    (h : separator ∉ front) (hr : split separator rest = piece :: pieces) :
    split separator (front ++ rest) = (front ++ piece) :: pieces := by
  induction front with
  | nil => exact hr
  | cons x front ih =>
    have hx : separator ≠ x := List.ne_of_not_mem_cons h
    have hf : separator ∉ front := List.not_mem_of_not_mem_cons h
    rw [List.cons_append, split, if_neg (Ne.symm hx), ih hf]
    rfl

theorem split_of_not_mem {piece : List α} (h : separator ∉ piece) :
    split separator piece = [piece] := by
  have hsplit : split separator (piece ++ []) = [piece ++ []] := split_append_of_not_mem h rfl
  rwa [List.append_nil] at hsplit

/-- What stands before a separator and what stands after it are split apart. -/
theorem split_append_cons (front rest : List α) :
    split separator (front ++ separator :: rest) =
      split separator front ++ split separator rest := by
  induction front with
  | nil => simp [split]
  | cons x front ih =>
    by_cases hx : x = separator
    · rw [List.cons_append, split, if_pos hx, split, if_pos hx, ih, List.cons_append]
    · obtain ⟨piece, pieces, hs, hc⟩ := split_cons_of_ne hx front
      rw [List.cons_append, split, if_neg hx, ih, hc, hs]
      rfl

end Append

end RouteCosts.Text
