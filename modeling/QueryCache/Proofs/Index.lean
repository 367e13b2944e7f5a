import QueryCache.Index
import QueryCache.Proofs.Related

/-!
# Which definitions are accepted

A definition fits if it names a field and no more fields than allowed. A list of definitions is
accepted as a whole: there may not be too many, and each must fit. If it is refused, the number of
the definitions is to blame, or the first one that does not fit.

## Main definitions

* `CompositeIndex.Fits`, `CompositeIndex.Misfit` : a definition that fits, and why another does not.
* `CompositeIndex.Accepted`, `CompositeIndex.Refused` : the same of a list of definitions.

## Main results

* `CompositeIndex.parseAll_eq_ok_iff`, `CompositeIndex.parseAll_eq_error_iff` : the indexes of a
  list of definitions.
* `CompositeIndex.exists_refused_iff` : what is not accepted is refused.
-/

namespace QueryCache.CompositeIndex

variable {maxIndexes maxFields : Nat} {definition : String} {definitions : List String}
  {index : CompositeIndex} {indexes : List CompositeIndex} {e : IndexError}

/-! ### One definition -/

/-- A definition that names a field and at most `maxFields` of them. -/
def Fits (maxFields : Nat) (definition : String) : Prop :=
  fieldNames definition ≠ [] ∧ (fieldNames definition).length ≤ maxFields

instance : Decidable (Fits maxFields definition) := inferInstanceAs (Decidable (_ ∧ _))

/-- Why a definition does not fit. -/
inductive Misfit (maxFields : Nat) (definition : String) : IndexError → Prop
  | noField (names : fieldNames definition = []) :
      Misfit maxFields definition (.emptyDefinition definition)
  | tooManyFields (number : maxFields < (fieldNames definition).length) :
      Misfit maxFields definition
        (.tooManyCompositeFields definition (fieldNames definition).length maxFields)

theorem parse_eq_ok_iff : parse definition maxFields = .ok index ↔
    Fits maxFields definition ∧ index = ⟨definition, fieldNames definition⟩ := by
  rw [parse, Fits]
  simp only [List.isEmpty_iff]
  split
  next hnames => simp [hnames]
  next hnames =>
    split
    next hnumber => simp [Nat.not_le.2 hnumber]
    next hnumber => simp [hnames, Nat.not_lt.1 hnumber, eq_comm]

theorem parse_eq_error_iff :
    parse definition maxFields = .error e ↔ Misfit maxFields definition e := by
  rw [parse]
  simp only [List.isEmpty_iff]
  constructor
  · intro h
    split at h
    next hnames =>
      cases h
      exact .noField hnames
    next =>
      split at h
      next hnumber =>
        cases h
        exact .tooManyFields hnumber
      next => cases h
  · rintro (names | number)
    · rw [if_pos names]
    · rw [if_neg (List.ne_nil_of_length_pos (Nat.zero_lt_of_lt number)), if_pos number]

/-! ### Several definitions -/

/-- Definitions of which there are not too many and which all fit. -/
def Accepted (maxIndexes maxFields : Nat) (definitions : List String) : Prop :=
  definitions.length ≤ maxIndexes ∧ ∀ definition ∈ definitions, Fits maxFields definition

instance : Decidable (Accepted maxIndexes maxFields definitions) :=
  inferInstanceAs (Decidable (_ ∧ _))

/-- Why definitions are refused: there are too many, or the first one that does not fit is to
blame. -/
inductive Refused (maxIndexes maxFields : Nat) (definitions : List String) : IndexError → Prop
  | tooMany (number : maxIndexes < definitions.length) :
      Refused maxIndexes maxFields definitions (.tooManyIndexes definitions.length maxIndexes)
  | first {before definition after e} (number : definitions.length ≤ maxIndexes)
      (split : definitions = before ++ definition :: after)
      (fit : ∀ earlier ∈ before, Fits maxFields earlier)
      (misfit : Misfit maxFields definition e) : Refused maxIndexes maxFields definitions e

/-- **The indexes of definitions** that are accepted. -/
theorem parseAll_eq_ok_iff : parseAll definitions maxIndexes maxFields = .ok indexes ↔
    Accepted maxIndexes maxFields definitions ∧
      indexes = definitions.map fun definition => ⟨definition, fieldNames definition⟩ := by
  rw [parseAll, Accepted]
  split
  next hnumber => simp [Nat.not_le.2 hnumber]
  next hnumber =>
    simp only [mapM_eq_ok_iff, parse_eq_ok_iff, List.forall₂_and_left]
    have hindexes : List.Forall₂
        (fun definition index => index = ⟨definition, fieldNames definition⟩)
        definitions indexes ↔
          indexes = definitions.map fun definition => ⟨definition, fieldNames definition⟩ := by
      rw [@eq_comm _ indexes, ← List.forall₂_eq_eq_eq, List.forall₂_map_left_iff]
      exact ⟨fun h => h.imp fun _ _ => Eq.symm, fun h => h.imp fun _ _ => Eq.symm⟩
    rw [hindexes, and_iff_right (Nat.not_lt.1 hnumber)]

/-- **Why definitions have no indexes.** -/
theorem parseAll_eq_error_iff : parseAll definitions maxIndexes maxFields = .error e ↔
    Refused maxIndexes maxFields definitions e := by
  rw [parseAll]
  split
  next hnumber =>
    constructor
    · intro h
      cases h
      exact .tooMany hnumber
    · rintro (number | ⟨number, -, -, -⟩)
      · rfl
      · exact (Nat.not_lt.2 number hnumber).elim
  next hnumber =>
    rw [mapM_eq_error_iff]
    constructor
    · rintro ⟨before, definition, after, hsplit, hbefore, hfirst⟩
      refine .first (Nat.not_lt.1 hnumber) hsplit (fun earlier hearlier => ?_)
        (parse_eq_error_iff.1 hfirst)
      obtain ⟨index, hindex⟩ := hbefore earlier hearlier
      exact (parse_eq_ok_iff.1 hindex).1
    · rintro (number | ⟨-, hsplit, hbefore, hfirst⟩)
      · exact (hnumber number).elim
      · exact ⟨_, _, _, hsplit, fun earlier hearlier =>
          ⟨_, parse_eq_ok_iff.2 ⟨hbefore earlier hearlier, rfl⟩⟩, parse_eq_error_iff.2 hfirst⟩

theorem Refused.unique {e' : IndexError} (h : Refused maxIndexes maxFields definitions e)
    (h' : Refused maxIndexes maxFields definitions e') : e = e' :=
  Except.error.inj ((parseAll_eq_error_iff.2 h).symm.trans (parseAll_eq_error_iff.2 h'))

/-- **What is not accepted is refused.** -/
theorem exists_refused_iff : (∃ e, Refused maxIndexes maxFields definitions e) ↔
    ¬ Accepted maxIndexes maxFields definitions := by
  simp only [← parseAll_eq_error_iff]
  cases hall : parseAll definitions maxIndexes maxFields with
  | ok indexes => simpa using (parseAll_eq_ok_iff.1 hall).1
  | error e =>
    refine iff_of_true ⟨e, rfl⟩ fun haccepted => ?_
    cases hall.symm.trans (parseAll_eq_ok_iff.2 ⟨haccepted, rfl⟩)

end QueryCache.CompositeIndex
