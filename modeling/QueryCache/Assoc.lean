/-!
# Lists under keys

Finite maps from strings, as lists of pairs in the order of the keys. Reading is `List.lookup`;
writing keeps the order and a single pair per key.

## Main definitions

* `Assoc.insert`, `Assoc.erase`, `Assoc.keys`, `Assoc.ofList`.

## Main results

* `Assoc.lookup_insert`, `Assoc.lookup_erase` : what is read after a write.
-/

namespace QueryCache

/-- Values under keys. -/
abbrev Assoc (α : Type) := List (String × α)

namespace Assoc

variable {α : Type}

/-- Sets the value under a key. -/
def insert (key : String) (value : α) : Assoc α → Assoc α
  | [] => [(key, value)]
  | (k, v) :: rest =>
    if key = k then (key, value) :: rest
    else if key < k then (key, value) :: (k, v) :: rest
    else (k, v) :: insert key value rest

/-- Removes the value under a key. -/
def erase (key : String) : Assoc α → Assoc α
  | [] => []
  | (k, v) :: rest => if key = k then erase key rest else (k, v) :: erase key rest

/-- The keys in order. -/
def keys (m : Assoc α) : List String := m.map Prod.fst

/-- The pairs in the order of their keys; of pairs with one key the last one stays. -/
def ofList (pairs : List (String × α)) : Assoc α :=
  pairs.foldl (fun m pair => insert pair.1 pair.2 m) []

theorem lookup_cons (k key : String) (v : α) (m : Assoc α) :
    List.lookup key ((k, v) :: m) = if key = k then some v else m.lookup key := by
  by_cases h : key = k
  · simp [h]
  · simp [List.lookup_cons, beq_eq_false_iff_ne.2 h, h]

/-- A written value is read back, and all others are as before. -/
@[simp] theorem lookup_insert (m : Assoc α) (key other : String) (value : α) :
    List.lookup other (insert key value m) =
      if other = key then some value else m.lookup other := by
  induction m with
  | nil => simp [insert, lookup_cons]
  | cons pair rest ih =>
    obtain ⟨k, v⟩ := pair
    unfold insert
    split
    · next h => subst h; simp only [lookup_cons]; split <;> rfl
    · next h =>
      split
      · simp only [lookup_cons]
      · simp only [lookup_cons, ih]
        by_cases ho : other = key
        · subst ho; simp [h]
        · simp [ho]

/-- A removed value is gone, and all others are as before. -/
@[simp] theorem lookup_erase (m : Assoc α) (key other : String) :
    List.lookup other (erase key m) = if other = key then none else m.lookup other := by
  induction m with
  | nil => simp [erase]
  | cons pair rest ih =>
    obtain ⟨k, v⟩ := pair
    unfold erase
    split
    · next h =>
      subst h
      rw [ih, lookup_cons]
      split <;> rfl
    · next h =>
      rw [lookup_cons, ih, lookup_cons]
      by_cases ho : other = key
      · subst ho; simp [h]
      · simp [ho]

end Assoc

end QueryCache
