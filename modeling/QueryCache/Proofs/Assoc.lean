import Mathlib.Data.String.Basic
import QueryCache.Assoc

/-!
# Sorted lists under keys

Insertion and removal keep the order of the keys. In an ordered list each key has one pair, so that
a value that is set anew takes the place of the old one, and a removal takes away one pair at most.

## Main definitions

* `Assoc.Sorted` : the keys are in order, each once.

## Main results

* `Assoc.Sorted.insert`, `Assoc.Sorted.erase` : the order is kept.
* `Assoc.Sorted.length_insert`, `Assoc.Sorted.length_erase` : the number of pairs after a write.
-/

namespace QueryCache.Assoc

variable {α : Type} {m : Assoc α} {key k : String} {value v : α}

/-- The keys are in order, each once. -/
def Sorted (m : Assoc α) : Prop := m.Pairwise fun pair pair' => pair.1 < pair'.1

theorem sorted_cons : Sorted ((k, v) :: m) ↔ (∀ pair ∈ m, k < pair.1) ∧ Sorted m :=
  List.pairwise_cons

/-- The pairs after an insertion are the new one and old ones. -/
theorem mem_insert {pair : String × α} (h : pair ∈ insert key value m) :
    pair = (key, value) ∨ pair ∈ m := by
  induction m with
  | nil => exact .inl (List.mem_singleton.1 h)
  | cons first rest ih =>
    obtain ⟨k, v⟩ := first
    rw [insert] at h
    split at h
    · exact (List.mem_cons.1 h).imp_right (List.mem_cons_of_mem _)
    · split at h
      · exact List.mem_cons.1 h
      · rcases List.mem_cons.1 h with rfl | h
        · exact .inr List.mem_cons_self
        · exact (ih h).imp_right (List.mem_cons_of_mem _)

theorem mem_of_mem_erase {pair : String × α} (h : pair ∈ erase key m) : pair ∈ m := by
  induction m with
  | nil => exact h
  | cons first rest ih =>
    obtain ⟨k, v⟩ := first
    rw [erase] at h
    split at h
    · exact List.mem_cons_of_mem _ (ih h)
    · rcases List.mem_cons.1 h with rfl | h
      · exact List.mem_cons_self
      · exact List.mem_cons_of_mem _ (ih h)

/-- A key that comes before all others has no value. -/
theorem lookup_eq_none (h : ∀ pair ∈ m, key < pair.1) : m.lookup key = none := by
  refine List.lookup_eq_none_iff.2 fun pair hpair => ?_
  simpa using (h pair hpair).ne

namespace Sorted

/-- **Insertion keeps the order.** -/
theorem insert (h : Sorted m) : Sorted (Assoc.insert key value m) := by
  induction m with
  | nil => exact List.pairwise_singleton _ _
  | cons first rest ih =>
    obtain ⟨k, v⟩ := first
    obtain ⟨hfirst, hrest⟩ := sorted_cons.1 h
    rw [Assoc.insert]
    split
    next heq => exact sorted_cons.2 ⟨heq ▸ hfirst, hrest⟩
    next hne =>
      split
      next hlt =>
        refine sorted_cons.2 ⟨fun pair hpair => ?_, h⟩
        rcases List.mem_cons.1 hpair with rfl | hpair
        · exact hlt
        · exact hlt.trans (hfirst pair hpair)
      next hge =>
        refine sorted_cons.2 ⟨fun pair hpair => ?_, ih hrest⟩
        rcases mem_insert hpair with rfl | hpair
        · exact lt_of_le_of_ne (not_lt.1 hge) (Ne.symm hne)
        · exact hfirst pair hpair

/-- **Removal keeps the order.** -/
theorem erase (h : Sorted m) : Sorted (Assoc.erase key m) := by
  induction m with
  | nil => exact h
  | cons first rest ih =>
    obtain ⟨k, v⟩ := first
    obtain ⟨hfirst, hrest⟩ := sorted_cons.1 h
    rw [Assoc.erase]
    split
    · exact ih hrest
    · exact sorted_cons.2 ⟨fun pair hpair => hfirst pair (mem_of_mem_erase hpair), ih hrest⟩

/-- A value that is set under a new key is one more. -/
theorem length_insert (h : Sorted m) : (Assoc.insert key value m).length =
    if (m.lookup key).isSome then m.length else m.length + 1 := by
  induction m with
  | nil => rfl
  | cons first rest ih =>
    obtain ⟨k, v⟩ := first
    obtain ⟨hfirst, hrest⟩ := sorted_cons.1 h
    rw [Assoc.insert, lookup_cons]
    split
    · simp
    next hne =>
      split
      next hlt =>
        have hnone := lookup_eq_none fun pair hpair => hlt.trans (hfirst pair hpair)
        simp [hnone]
      · rw [List.length_cons, ih hrest, List.length_cons]
        split <;> rfl

/-- A value that is removed is one less. -/
theorem length_erase (h : Sorted m) : (Assoc.erase key m).length =
    if (m.lookup key).isSome then m.length - 1 else m.length := by
  induction m with
  | nil => rfl
  | cons first rest ih =>
    obtain ⟨k, v⟩ := first
    obtain ⟨hfirst, hrest⟩ := sorted_cons.1 h
    rw [Assoc.erase, lookup_cons]
    split
    next heq =>
      have hnone : rest.lookup key = none := lookup_eq_none (heq ▸ hfirst)
      simp [ih hrest, hnone]
    · rw [List.length_cons, ih hrest, List.length_cons]
      split
      next hsome =>
        have hpos : 0 < rest.length := List.length_pos_iff.2 fun hnil => by simp [hnil] at hsome
        omega
      · rfl

end Sorted

end QueryCache.Assoc
