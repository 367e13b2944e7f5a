import Mathlib.Data.List.Forall2
import QueryCache.Proofs.Sql.Grammar
import QueryCache.Query.Filter

/-!
# Truth of filters

Truth values for the checks of fields give every filter a truth value, and likewise every filter
object, in which `$and` asks all and `$or` some of its objects. The filters that come from
conditions alone are disjunctions of conjunctions; such a filter and its object have one truth
value.

## Main definitions

* `Filter.holds` : the truth value of a filter.
* `Filter.documentHolds` : the truth value of a filter object.
* `Filter.isConjunctive` : tests of plain fields under conjunctions.
* `Filter.SameTerm` : lists of conjuncts that say the same.

## Main results

* `Filter.documentHolds_toJson` : the object of a filter holds where one of its disjuncts does.
* `Filter.disjuncts_ofDisjuncts` : disjuncts put together and taken apart say the same.
-/

namespace QueryCache.Filter

/-! ### Truth values -/

section Truth

variable (w : String → Json → Bool)

mutual

/-- The truth value of a filter. -/
def holds : Filter → Bool
  | .test field check => w field check
  | .all operands => allHold operands
  | .any operands => anyHolds operands

/-- All filters hold. -/
def allHold : List Filter → Bool
  | [] => true
  | f :: rest => holds f && allHold rest

/-- Some filter holds. -/
def anyHolds : List Filter → Bool
  | [] => false
  | f :: rest => holds f || anyHolds rest

end

theorem allHold_eq_all : (fs : List Filter) → allHold w fs = fs.all (holds w)
  | [] => rfl
  | f :: rest => by rw [allHold, allHold_eq_all rest, List.all_cons]

theorem anyHolds_eq_any : (fs : List Filter) → anyHolds w fs = fs.any (holds w)
  | [] => rfl
  | f :: rest => by rw [anyHolds, anyHolds_eq_any rest, List.any_cons]

mutual

/-- The truth value of a filter object: all its members hold. -/
def documentHolds : Json → Bool
  | .obj members => membersHold members
  | _ => false

/-- All members of an object hold. -/
def membersHold : List (String × Json) → Bool
  | [] => true
  | (key, value) :: rest => memberHolds key value && membersHold rest

/-- A member asks all objects of `$and`, some of `$or`, or the check of a field. -/
def memberHolds (key : String) : Json → Bool
  | .arr items =>
    if key = "$and" then allDocumentsHold items
    else if key = "$or" then anyDocumentHolds items
    else w key (.arr items)
  | value => w key value

/-- All filter objects hold. -/
def allDocumentsHold : List Json → Bool
  | [] => true
  | document :: rest => documentHolds document && allDocumentsHold rest

/-- Some filter object holds. -/
def anyDocumentHolds : List Json → Bool
  | [] => false
  | document :: rest => documentHolds document || anyDocumentHolds rest

end

end Truth

/-! ### Conjunctive filters -/

mutual

/-- The filter consists of tests of plain fields under conjunctions. -/
def isConjunctive : Filter → Bool
  | .test field _ => Sql.isFieldName field
  | .all operands => areConjunctive operands
  | .any _ => false

/-- All filters consist of tests of plain fields under conjunctions. -/
def areConjunctive : List Filter → Bool
  | [] => true
  | f :: rest => isConjunctive f && areConjunctive rest

end

theorem areConjunctive_iff {fs : List Filter} :
    areConjunctive fs = true ↔ ∀ f ∈ fs, f.isConjunctive = true := by
  induction fs with
  | nil => simp [areConjunctive]
  | cons f rest ih => simp [areConjunctive, ih]

/-- A filter is conjunctive exactly if its conjuncts are. -/
theorem isConjunctive_iff_conjuncts {f : Filter} :
    f.isConjunctive = true ↔ ∀ g ∈ f.conjuncts, g.isConjunctive = true := by
  cases f with
  | test field check => simp [conjuncts]
  | all operands => rw [isConjunctive, areConjunctive_iff, conjuncts]
  | any operands => simp [conjuncts]

theorem all_conjuncts (w : String → Json → Bool) (f : Filter) :
    f.conjuncts.all (holds w) = f.holds w := by
  cases f with
  | test field check => simp [conjuncts]
  | all operands => rw [conjuncts, holds, allHold_eq_all]
  | any operands => simp [conjuncts]

theorem disjuncts_of_isConjunctive {f : Filter} (h : f.isConjunctive) :
    f.disjuncts = [f.conjuncts] := by
  cases f with
  | test | all => rfl
  | any operands => cases h

/-- A plain field is none of the keys of joined filters. -/
theorem ne_documentKey {name : String} (h : Sql.isFieldName name) (j : Joiner) :
    name ≠ j.documentKey := by
  have dollar : '$' ∉ name.toList := Sql.notMem_of_isFieldName h (by decide)
  rintro rfl
  cases j <;> exact dollar (by decide)

section Objects

variable (w : String → Json → Bool)

theorem memberHolds_field {name : String} (h : Sql.isFieldName name) (check : Json) :
    memberHolds w name check = w name check := by
  have hand : name ≠ "$and" := ne_documentKey h .and
  have hor : name ≠ "$or" := ne_documentKey h .or
  cases check with
  | arr items => rw [memberHolds, if_neg hand, if_neg hor]
  | _ => rfl

mutual

/-- The object of a conjunctive filter holds where the filter does. -/
theorem documentHolds_conjunctive : (f : Filter) → f.isConjunctive →
    documentHolds w f.toJson = f.holds w
  | .test field check, h => by
      rw [toJson, documentHolds, membersHold, membersHold, memberHolds_field w h, holds,
        Bool.and_true]
  | .all operands, h => by
      rw [toJson, documentHolds, membersHold, membersHold, Bool.and_true, holds]
      exact allDocumentsHold_conjunctive operands h
  | .any _, h => by cases h

theorem allDocumentsHold_conjunctive : (fs : List Filter) → areConjunctive fs →
    allDocumentsHold w (toJsonAll fs) = allHold w fs
  | [], _ => rfl
  | f :: rest, h => by
      rw [areConjunctive, Bool.and_eq_true] at h
      rw [toJsonAll, allDocumentsHold, allHold, documentHolds_conjunctive f h.1,
        allDocumentsHold_conjunctive rest h.2]

end

theorem anyDocumentHolds_conjunctive {fs : List Filter} (h : ∀ f ∈ fs, f.isConjunctive) :
    anyDocumentHolds w (toJsonAll fs) = fs.any (holds w) := by
  induction fs with
  | nil => rfl
  | cons f rest ih =>
    have hf := documentHolds_conjunctive w f (h f List.mem_cons_self)
    have hrest := ih fun g hg => h g (List.mem_cons_of_mem f hg)
    rw [toJsonAll, anyDocumentHolds, hf, hrest, List.any_cons]

/-- **The object of a disjunction of conjunctions** holds where all filters of some disjunct do. -/
theorem documentHolds_toJson {f : Filter} (h : ∀ t ∈ f.disjuncts, ∀ g ∈ t, g.isConjunctive) :
    documentHolds w f.toJson = f.disjuncts.any fun t => t.all (holds w) := by
  have single {g : Filter} (hg : ∀ o ∈ g.conjuncts, o.isConjunctive) :
      documentHolds w g.toJson = g.conjuncts.all (holds w) := by
    rw [documentHolds_conjunctive w g (isConjunctive_iff_conjuncts.2 hg), all_conjuncts]
  cases f with
  | test field check => simpa [disjuncts] using single (h _ (by simp [disjuncts]))
  | all operands => simpa [disjuncts] using single (h _ (by simp [disjuncts]))
  | any operands =>
    have hall : ∀ g ∈ operands, g.isConjunctive := fun g hg =>
      isConjunctive_iff_conjuncts.2 (h _ (List.mem_map_of_mem hg))
    rw [toJson, documentHolds, membersHold, membersHold, Bool.and_true, disjuncts, List.any_map]
    exact (anyDocumentHolds_conjunctive w hall).trans
      (congrArg (operands.any ·) (funext fun g => (all_conjuncts w g).symm))

end Objects

/-! ### Terms that say the same -/

/-- The second list of conjuncts is conjunctive and holds where the first one does. -/
def SameTerm (t u : List Filter) : Prop :=
  (∀ g ∈ u, g.isConjunctive) ∧ ∀ w, u.all (holds w) = t.all (holds w)

/-- The conjuncts of a conjunctive filter say what the filter says. -/
theorem sameTerm_conjuncts {f : Filter} (h : f.isConjunctive) : SameTerm [f] f.conjuncts :=
  ⟨isConjunctive_iff_conjuncts.1 h, fun w => by simp [all_conjuncts]⟩

theorem sameTerm_ofConjuncts {t : List Filter} (h : ∀ g ∈ t, g.isConjunctive) :
    SameTerm t (conjuncts (ofConjuncts t)) := by
  match t with
  | [] => exact ⟨h, fun w => rfl⟩
  | [f] => exact sameTerm_conjuncts (h f List.mem_cons_self)
  | f :: g :: rest => exact ⟨h, fun w => rfl⟩

theorem isConjunctive_ofConjuncts {t : List Filter} (h : ∀ g ∈ t, g.isConjunctive) :
    (ofConjuncts t).isConjunctive :=
  isConjunctive_iff_conjuncts.2 (sameTerm_ofConjuncts h).1

/-- **Disjuncts that are put together** are taken apart to disjuncts that say the same. -/
theorem disjuncts_ofDisjuncts {terms : List (List Filter)}
    (h : ∀ t ∈ terms, ∀ g ∈ t, g.isConjunctive) :
    List.Forall₂ SameTerm terms (disjuncts (ofDisjuncts terms)) := by
  have parts : List.Forall₂ SameTerm terms ((terms.map ofConjuncts).map conjuncts) := by
    rw [List.map_map, List.forall₂_map_right_iff, List.forall₂_same]
    exact fun t ht => sameTerm_ofConjuncts (h t ht)
  match terms with
  | [] => exact .nil
  | [t] =>
    have ht := h t List.mem_cons_self
    rw [ofDisjuncts, List.map_cons, List.map_nil,
      disjuncts_of_isConjunctive (isConjunctive_ofConjuncts ht)]
    exact parts
  | t :: u :: rest => exact parts

end QueryCache.Filter
