/-!
# Association lists

A finite map as the list of its entries, in the order in which their keys first came. `insert` keeps
the keys different from one another, and what it does is said by what is then looked up
(`lookup_insert`).
-/

namespace RouteCosts.Assoc

variable {α β : Type} [DecidableEq α]

/-- Give a key a value. A key that is there already keeps its place. -/
def insert (key : α) (value : β) : List (α × β) → List (α × β)
  | [] => [(key, value)]
  | (other, old) :: rest =>
    if other = key then (key, value) :: rest else (other, old) :: insert key value rest

theorem lookup_cons [BEq α] [LawfulBEq α] (other key : α) (value : β)
    (entries : List (α × β)) :
    ((key, value) :: entries).lookup other =
      if other = key then some value else entries.lookup other := by
  by_cases h : other = key
  · subst h
    rw [List.lookup_cons_self, if_pos rfl]
  · rw [List.lookup_cons, beq_false_of_ne h, if_neg h]

theorem lookup_insert [BEq α] [LawfulBEq α] (key other : α) (value : β)
    (entries : List (α × β)) :
    (insert key value entries).lookup other =
      if other = key then some value else entries.lookup other := by
  induction entries with
  | nil => simp [insert, lookup_cons]
  | cons entry rest ih =>
    obtain ⟨first, old⟩ := entry
    rw [insert]
    split
    · next h =>
      subst h
      by_cases ho : other = first <;> simp [lookup_cons, ho]
    · next h =>
      by_cases ho : other = first
      · subst ho
        simp [h]
      · simp [lookup_cons, ho, ih]

/-- A new key comes last. -/
theorem insert_of_lookup_eq_none [BEq α] [LawfulBEq α] {key : α} {entries : List (α × β)}
    (h : entries.lookup key = none) (value : β) :
    insert key value entries = entries ++ [(key, value)] := by
  induction entries with
  | nil => rfl
  | cons entry rest ih =>
    obtain ⟨first, old⟩ := entry
    rw [lookup_cons] at h
    split at h
    · cases h
    · next hne => rw [insert, if_neg (Ne.symm hne), ih h, List.cons_append]

/-- The keys after giving a value to one of them, or to a new one. -/
theorem map_fst_insert (key : α) (value : β) (entries : List (α × β)) :
    (insert key value entries).map Prod.fst =
      if key ∈ entries.map Prod.fst then entries.map Prod.fst
      else entries.map Prod.fst ++ [key] := by
  induction entries with
  | nil => simp [insert]
  | cons entry rest ih =>
    obtain ⟨first, old⟩ := entry
    rw [insert]
    by_cases h : first = key
    · simp [h]
    · rw [if_neg h, List.map_cons, ih]
      by_cases hm : key ∈ rest.map Prod.fst <;> simp_all [Ne.symm h]

/-- Different keys stay different. -/
theorem nodup_map_fst_insert {entries : List (α × β)} (h : (entries.map Prod.fst).Nodup) (key : α)
    (value : β) : ((insert key value entries).map Prod.fst).Nodup := by
  rw [map_fst_insert]
  split
  · exact h
  · next hk =>
    rw [List.nodup_append]
    exact ⟨h, by simp, fun a ha b hb => by
      rw [List.mem_singleton] at hb
      rintro rfl
      exact hk (hb ▸ ha)⟩

end RouteCosts.Assoc
