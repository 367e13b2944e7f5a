import QueryCache.Proofs.Filter.Shape

/-!
# The terms of filters

A filter is taken apart to its disjuncts, each a list of conjuncts, and put together from them. For
filters in good shape the two undo each other, and they still do when disjuncts follow others: a
single disjunct is never a disjunction itself, and a single conjunct never a conjunction. So filters
may be put side by side in any number of steps.

## Main definitions

* `Filter.IsProduct`, `Filter.AreProducts` : lists of conjuncts, and of disjuncts, that filters in
  good shape are taken apart to.

## Main results

* `Filter.follow_cases` : what the disjuncts of a filter become behind others.
* `Filter.disjuncts_ofDisjuncts_eq`, `Filter.IsProper.ofDisjuncts_disjuncts` : taking apart and
  putting together.
* `Filter.concat_concat` : filters side by side, in two steps.
-/

namespace QueryCache.Filter

/-! ### Conjuncts -/

/-- A list of conjuncts that a filter is taken apart to: there is one, and a single one is no
conjunction. -/
def IsProduct (t : List Filter) : Prop := t ≠ [] ∧ ∀ operands, t ≠ [.all operands]

theorem isProduct_of_length {t : List Filter} (h : 2 ≤ t.length) : IsProduct t := by
  refine ⟨List.ne_nil_of_length_pos (by omega), fun operands ht => ?_⟩
  rw [ht, List.length_singleton] at h
  omega

theorem two_le_length_append {α : Type} {xs ys : List α} (hxs : xs ≠ []) (hys : ys ≠ []) :
    2 ≤ (xs ++ ys).length := by
  have hpos := List.length_pos_iff.2 hxs
  have hpos' := List.length_pos_iff.2 hys
  rw [List.length_append]
  omega

theorem conjuncts_ofConjuncts {t : List Filter} (h : IsProduct t) :
    (ofConjuncts t).conjuncts = t := by
  match t, h with
  | [], h => exact (h.1 rfl).elim
  | [.test _ _], _ | [.any _], _ => rfl
  | [.all operands], h => exact (h.2 operands rfl).elim
  | f :: g :: rest, _ => rfl

theorem ofConjuncts_of_length {t : List Filter} (h : 2 ≤ t.length) : ofConjuncts t = .all t := by
  match t, h with
  | f :: g :: rest, _ => rfl

theorem IsProper.isProduct_conjuncts {f : Filter} (h : f.IsProper) : IsProduct f.conjuncts := by
  cases h with
  | test _ => exact ⟨List.cons_ne_nil _ _, fun _ => by simp [Filter.conjuncts]⟩
  | any _ _ => exact ⟨List.cons_ne_nil _ _, fun _ => by simp [Filter.conjuncts]⟩
  | all several _ => exact isProduct_of_length several

theorem IsProper.ofConjuncts_conjuncts {f : Filter} (h : f.IsProper) :
    ofConjuncts f.conjuncts = f := by
  cases h with
  | test _ | any _ _ => rfl
  | all several _ => exact ofConjuncts_of_length several

/-! ### Disjuncts -/

/-- Lists of conjuncts that a filter is taken apart to as its disjuncts: there is one, and a single
one is no disjunction. -/
structure AreProducts (terms : List (List Filter)) : Prop where
  ne_nil : terms ≠ []
  each : ∀ t ∈ terms, IsProduct t
  single : ∀ operands, terms ≠ [[.any operands]]

theorem areProducts_of_length {terms : List (List Filter)} (h : 2 ≤ terms.length)
    (each : ∀ t ∈ terms, IsProduct t) : AreProducts terms := by
  refine ⟨List.ne_nil_of_length_pos (by omega), each, fun operands hterms => ?_⟩
  rw [hterms, List.length_singleton] at h
  omega

theorem disjuncts_of_ne_any {f : Filter} (h : ∀ operands, f ≠ .any operands) :
    f.disjuncts = [f.conjuncts] := by
  cases f with
  | test _ _ | all _ => rfl
  | any operands => exact (h operands rfl).elim

theorem IsProper.areProducts_disjuncts {f : Filter} (h : f.IsProper) :
    AreProducts f.disjuncts := by
  have hproduct := h.isProduct_conjuncts
  cases h with
  | test _ =>
    exact ⟨List.cons_ne_nil _ _, List.forall_mem_singleton.2 hproduct,
      fun _ => by simp [Filter.disjuncts, Filter.conjuncts]⟩
  | @all conjuncts several _ =>
    refine ⟨List.cons_ne_nil _ _, List.forall_mem_singleton.2 hproduct, fun operands hterms => ?_⟩
    have hsingle : conjuncts = [.any operands] := (List.cons.inj hterms).1
    rw [hsingle, List.length_singleton] at several
    omega
  | any several each =>
    exact areProducts_of_length (by rwa [Filter.disjuncts, List.length_map])
      (List.forall_mem_map.2 fun f hf => (each f hf).isProduct_conjuncts)

/-- **Disjuncts that are put together** are taken apart to the same disjuncts. -/
theorem disjuncts_ofDisjuncts_eq {terms : List (List Filter)} (h : AreProducts terms) :
    (ofDisjuncts terms).disjuncts = terms := by
  match terms, h with
  | [], h => exact (h.ne_nil rfl).elim
  | [t], h =>
    have ht := h.each t List.mem_cons_self
    have hne (operands : List Filter) : ofConjuncts t ≠ .any operands := by
      intro hany
      apply h.single operands
      rw [← conjuncts_ofConjuncts ht, hany]
      rfl
    exact (disjuncts_of_ne_any hne).trans (by rw [conjuncts_ofConjuncts ht])
  | t :: u :: rest, h =>
    change ((t :: u :: rest).map ofConjuncts).map conjuncts = t :: u :: rest
    rw [List.map_map]
    exact (List.map_congr_left fun x hx => conjuncts_ofConjuncts (h.each x hx)).trans
      (List.map_id _)

theorem ofDisjuncts_of_length {terms : List (List Filter)} (h : 2 ≤ terms.length) :
    ofDisjuncts terms = .any (terms.map ofConjuncts) := by
  match terms, h with
  | t :: u :: rest, _ => rfl

/-- **A filter that is taken apart** is put together as it was. -/
theorem IsProper.ofDisjuncts_disjuncts {f : Filter} (h : f.IsProper) :
    ofDisjuncts f.disjuncts = f := by
  cases h with
  | test _ => rfl
  | all several _ => exact ofConjuncts_of_length several
  | @any operands several each =>
    rw [ofDisjuncts_of_length (by rwa [Filter.disjuncts, List.length_map]), Filter.disjuncts,
      List.map_map]
    congr 1
    exact (List.map_congr_left fun f hf => (each f hf).ofConjuncts_conjuncts).trans (List.map_id _)

/-! ### Disjuncts behind others -/

section Follow

variable {terms : List (List Filter)} {part : Option Joiner × Filter}

/-- What the disjuncts of a filter become behind others: by disjunction they are put behind them,
and else the first one is put behind the conjuncts of the last one before. -/
theorem follow_cases (h : terms ≠ []) (hpart : part.2.IsProper) :
    (part.1 = some .or ∧ follow terms part = terms ++ part.2.disjuncts) ∨
    (part.1 ≠ some .or ∧ ∃ front last head tail, terms = front ++ [last] ∧
      part.2.disjuncts = head :: tail ∧
      follow terms part = front ++ (last ++ head) :: tail) := by
  obtain ⟨j, f⟩ := part
  obtain ⟨head, tail, hdisjuncts⟩ := List.exists_cons_of_ne_nil hpart.disjuncts.1
  obtain rfl | ⟨front, last, rfl⟩ := List.eq_nil_or_concat' terms
  · exact (h rfl).elim
  have hand : follow (front ++ [last]) (some .and, f) = front ++ (last ++ head) :: tail := by
    rw [follow, hdisjuncts]
    change extendLast (front ++ [last]) head ++ tail = _
    rw [extendLast_concat, List.append_assoc, List.singleton_append]
  cases j with
  | none => exact .inr ⟨by simp, front, last, head, tail, rfl, hdisjuncts, hand⟩
  | some j =>
    cases j with
    | and => exact .inr ⟨by simp, front, last, head, tail, rfl, hdisjuncts, hand⟩
    | or => exact .inl ⟨rfl, rfl⟩

theorem AreProducts.follow (h : AreProducts terms) (hpart : part.2.IsProper) :
    AreProducts (follow terms part) := by
  have hincoming := hpart.areProducts_disjuncts
  rcases follow_cases h.ne_nil hpart with
    ⟨-, heq⟩ | ⟨-, front, last, head, tail, rfl, hdisjuncts, heq⟩
  · rw [heq]
    exact areProducts_of_length (two_le_length_append h.ne_nil hincoming.ne_nil)
      (List.forall_mem_append.2 ⟨h.each, hincoming.each⟩)
  · rw [hdisjuncts] at hincoming
    obtain ⟨hhead, htail⟩ := List.forall_mem_cons.1 hincoming.each
    obtain ⟨hfront, hlast⟩ := List.forall_mem_append.1 h.each
    have hlast := List.forall_mem_singleton.1 hlast
    have htwo := two_le_length_append hlast.1 hhead.1
    rw [heq]
    refine ⟨List.append_ne_nil_of_right_ne_nil _ (List.cons_ne_nil _ _),
      List.forall_mem_append.2 ⟨hfront, List.forall_mem_cons.2 ⟨isProduct_of_length htwo, htail⟩⟩,
      fun operands hsingle => ?_⟩
    -- the extended disjunct has at least two conjuncts
    have hmem : last ++ head ∈ [[Filter.any operands]] := by
      rw [← hsingle]
      exact List.mem_append_right _ List.mem_cons_self
    rw [List.mem_singleton.1 hmem, List.length_singleton] at htwo
    omega

theorem AreProducts.foldl_follow {parts : List (Option Joiner × Filter)} (h : AreProducts terms)
    (hparts : ∀ part ∈ parts, part.2.IsProper) : AreProducts (parts.foldl Filter.follow terms) := by
  induction parts generalizing terms with
  | nil => exact h
  | cons part rest ih =>
    obtain ⟨hpart, hrest⟩ := List.forall_mem_cons.1 hparts
    exact ih (h.follow hpart) hrest

end Follow

/-! ### Side by side -/

/-- A filter in good shape alone is put together as it is. -/
theorem concat_nil {f : Filter} (h : f.IsProper) : concat f [] = f :=
  h.ofDisjuncts_disjuncts

/-- The disjuncts of filters side by side. -/
theorem disjuncts_concat {f : Filter} {parts : List (Option Joiner × Filter)} (h : f.IsProper)
    (hparts : ∀ part ∈ parts, part.2.IsProper) :
    (concat f parts).disjuncts = parts.foldl follow f.disjuncts :=
  disjuncts_ofDisjuncts_eq (h.areProducts_disjuncts.foldl_follow hparts)

/-- **Filters side by side** may be put together in two steps. -/
theorem concat_concat {f : Filter} {parts : List (Option Joiner × Filter)} (h : f.IsProper)
    (hparts : ∀ part ∈ parts, part.2.IsProper) (others : List (Option Joiner × Filter)) :
    concat (concat f parts) others = concat f (parts ++ others) := by
  rw [concat, disjuncts_concat h hparts, ← List.foldl_append, ← concat]

end QueryCache.Filter
