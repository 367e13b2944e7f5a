import QueryCache.Proofs.Filter.Truth
import QueryCache.Proofs.Query.Signature
import QueryCache.Proofs.Sql.Precedence

/-!
# Texts and filters of the same conditions

A condition text in which conjunction binds tighter than disjunction is a row of terms, and so is a
filter that is taken apart to its disjuncts. A text and a row of terms match if they are made of
terms that hold at the same time. Putting texts side by side and letting the disjuncts of one filter
follow those of another keep them matched.

## Main definitions

* `Filter.Agree` : truth values for tests in texts and for checks in filters, the same for both
  forms of a condition.
* `TermMatches`, `Matches` : a text says what a list of conjuncts says, or a list of disjuncts.
* `Twins` : a text and a filter that match, or that are both missing.

## Main results

* `Filter.exists_agree` : truth values of checks that tests can agree with.
* `Matches.holds` : what matches holds at the same time.
* `Matches.follow` : a text behind another one, and disjuncts behind others.
* `RowTwins.concat`, `TermTwins.join_and`, `TermTwins.join_or` : rows and joined texts and filters.
-/

namespace QueryCache

/-- Truth values for tests in texts and for checks in filters agree if the two forms of each
condition have the same value. -/
def Filter.Agree (v : Sql.Assignment) (w : String → Json → Bool) : Prop :=
  ∀ c check, Filter.check? c = some check → v c.field c.operator c.operands = w c.field check

/-- Whatever truth values the checks have, there are such for the tests. -/
theorem Filter.exists_agree (w : String → Json → Bool) : ∃ v, Agree v w := by
  -- a test determines its condition up to the value of a null check
  refine ⟨fun field operator values => (check? ⟨field, operator,
    if operator.takesSequence then .arr values else values.headD .null⟩).elim false (w field), ?_⟩
  rintro ⟨field, operator, value⟩ check hcheck
  cases operator <;> cases value <;> cases hcheck <;> rfl

open QueryCache.Sql QueryCache.Filter

/-- A text with its parameters says that all of a list of conjunctive filters hold. -/
def TermMatches (s : String) (ps : List Json) (t : List Filter) : Prop :=
  (∀ g ∈ t, g.isConjunctive) ∧ ∃ f, Reads .conjunction s ps f ∧
    ∀ v w, Agree v w → f.holds v = t.all (Filter.holds w)

/-- A text with its parameters says that all filters of some of the lists hold. -/
inductive Matches : String → List Json → List (List Filter) → Prop
  | last {s ps t} (h : TermMatches s ps t) : Matches s ps [t]
  | more {s ps t r qs rest} (first : TermMatches s ps t) (others : Matches r qs rest) :
      Matches (s ++ " OR " ++ r) (ps ++ qs) (t :: rest)

/-! ### Terms -/

theorem TermMatches.congr {s : String} {ps : List Json} {t u : List Filter}
    (h : TermMatches s ps t) (hu : SameTerm t u) : TermMatches s ps u := by
  obtain ⟨-, f, hread, hholds⟩ := h
  exact ⟨hu.1, f, hread, fun v w hvw => (hholds v w hvw).trans (hu.2 w).symm⟩

/-- Texts joined by conjunction say that the filters of both lists hold. -/
theorem TermMatches.append {s r : String} {ps qs : List Json} {t u : List Filter}
    (h : TermMatches s ps t) (h' : TermMatches r qs u) :
    TermMatches (s ++ " AND " ++ r) (ps ++ qs) (t ++ u) := by
  obtain ⟨hconj, f, hread, hholds⟩ := h
  obtain ⟨hconj', g, hread', hholds'⟩ := h'
  obtain ⟨both, hboth, hand⟩ := hread.and_append hread'
  refine ⟨fun x hx => (List.mem_append.1 hx).elim (hconj x) (hconj' x), both, hboth, ?_⟩
  intro v w hvw
  rw [hand, hholds v w hvw, hholds' v w hvw, List.all_append]

/-! ### Rows of terms -/

namespace Matches

variable {s r : String} {ps qs : List Json} {terms terms' : List (List Filter)}

/-- All filters of a matched row are conjunctive. -/
theorem isConjunctive (h : Matches s ps terms) : ∀ t ∈ terms, ∀ g ∈ t, g.isConjunctive := by
  induction h with
  | last h =>
    intro t ht
    obtain rfl := List.mem_singleton.1 ht
    exact h.1
  | more first _ ih =>
    intro t ht
    rcases List.mem_cons.1 ht with rfl | ht
    · exact first.1
    · exact ih t ht

/-- **What matches holds at the same time**: the text can be read as a formula that holds where all
filters of some term do. -/
theorem holds (h : Matches s ps terms) : ∃ f, Reads .disjunction s ps f ∧
    ∀ v w, Agree v w → f.holds v = terms.any fun t => t.all (Filter.holds w) := by
  induction h with
  | last h =>
    obtain ⟨-, f, hread, hholds⟩ := h
    exact ⟨f, .conjunction hread, fun v w hvw => by simp [hholds v w hvw]⟩
  | more first _ ih =>
    obtain ⟨-, f, hread, hholds⟩ := first
    obtain ⟨g, hread', hholds'⟩ := ih
    refine ⟨.either f g, .or hread hread', fun v w hvw => ?_⟩
    rw [Formula.holds, hholds v w hvw, hholds' v w hvw, List.any_cons]

theorem congr (h : Matches s ps terms) (hsame : List.Forall₂ SameTerm terms terms') :
    Matches s ps terms' := by
  induction h generalizing terms' with
  | last h =>
    cases hsame with
    | cons hu hnil =>
      cases hnil
      exact .last (h.congr hu)
  | more first _ ih =>
    cases hsame with
    | cons hu hrest => exact .more (first.congr hu) (ih hrest)

/-- Disjuncts that are put together are still matched. -/
theorem ofDisjuncts (h : Matches s ps terms) : Matches s ps (disjuncts (ofDisjuncts terms)) :=
  h.congr (disjuncts_ofDisjuncts h.isConjunctive)

/-- Texts joined by disjunction match the terms of both. -/
theorem or_append (h : Matches s ps terms) (h' : Matches r qs terms') :
    Matches (s ++ " OR " ++ r) (ps ++ qs) (terms ++ terms') := by
  induction h with
  | last h => exact .more h h'
  | more first _ ih =>
    simpa only [String.append_assoc, List.append_assoc, List.cons_append]
      using Matches.more first ih

theorem ne_nil (h : Matches s ps terms) : terms ≠ [] := by
  cases h <;> exact List.cons_ne_nil _ _

/-- A text joined by conjunction behind one term extends this term by its own first one. -/
theorem append_term {t u : List Filter} (h : TermMatches s ps t)
    (h' : Matches r qs (u :: terms')) :
    Matches (s ++ " AND " ++ r) (ps ++ qs) ((t ++ u) :: terms') := by
  generalize hterms : u :: terms' = us at h'
  cases h' with
  | last hu =>
    obtain ⟨rfl, rfl⟩ := List.cons.inj hterms
    exact .last (h.append hu)
  | more first others =>
    obtain ⟨rfl, rfl⟩ := List.cons.inj hterms
    simpa only [String.append_assoc, List.append_assoc] using Matches.more (h.append first) others

theorem extendLast_cons {t t' : List Filter} {rest : List (List Filter)} (u : List Filter) :
    extendLast (t :: t' :: rest) u = t :: extendLast (t' :: rest) u := by
  have hlast := List.getLast?_eq_some_getLast (List.cons_ne_nil t' rest)
  simp only [extendLast, List.getLast?_cons_cons, hlast, List.dropLast_cons_cons, List.cons_append]

/-- Texts joined by conjunction match the terms of both, the last one of the first text extended by
the first one of the second. -/
theorem and_append {u : List Filter} (h : Matches s ps terms) (h' : Matches r qs (u :: terms')) :
    Matches (s ++ " AND " ++ r) (ps ++ qs) (extendLast terms u ++ terms') := by
  induction h with
  | last h => exact append_term h h'
  | @more s ps t r₁ qs₁ rest first others ih =>
    obtain ⟨t', rest, rfl⟩ := List.exists_cons_of_ne_nil others.ne_nil
    rw [extendLast_cons]
    simpa only [String.append_assoc, List.append_assoc, List.cons_append]
      using Matches.more first ih

/-- **A text behind another one** matches the disjuncts of a filter that follow those before it. -/
theorem follow {f : Filter} (j : Joiner) (h : Matches s ps terms) (h' : Matches r qs f.disjuncts) :
    Matches (s ++ j.sql ++ r) (ps ++ qs) (follow terms (some j, f)) := by
  obtain ⟨u, us, hu⟩ := List.exists_cons_of_ne_nil h'.ne_nil
  cases j with
  | and =>
    rw [hu] at h'
    rw [Filter.follow, hu]
    exact h.and_append h'
  | or =>
    rw [Filter.follow]
    exact h.or_append h'

end Matches

/-! ### Texts and filters put together -/

/-- A text says what a conjunctive filter says. -/
def TermTwins (s : Sql) (f : Filter) : Prop := TermMatches s.text s.parameters [f]

/-- A text says what the disjuncts of a filter say. -/
def RowTwins (s : Sql) (f : Filter) : Prop := Matches s.text s.parameters f.disjuncts

theorem TermTwins.isConjunctive {s : Sql} {f : Filter} (h : TermTwins s f) : f.isConjunctive :=
  h.1 f List.mem_cons_self

theorem TermTwins.row {s : Sql} {f : Filter} (h : TermTwins s f) : RowTwins s f := by
  rw [RowTwins, disjuncts_of_isConjunctive h.isConjunctive]
  exact .last (h.congr (sameTerm_conjuncts h.isConjunctive))

/-- The two forms of a well-formed condition say the same. -/
theorem termTwins_ofCondition {c : Condition} (hc : c.IsWellFormed) :
    ∃ s f, Sql.ofCondition "?" c = .ok s ∧ Filter.ofCondition c = some f ∧ TermTwins s f := by
  obtain ⟨s, hs, f, hread, hholds⟩ := says_ofCondition hc
  have hcounts : (Filter.check? c).isSome := by
    rw [Filter.isSome_check?, Condition.counts]
    cases hseq : c.operator.takesSequence with
    | false => rfl
    | true =>
      obtain ⟨value, values, hvalue⟩ := hc.2 hseq
      rw [hvalue]
      rfl
  obtain ⟨check, hcheck⟩ := Option.isSome_iff_exists.1 hcounts
  refine ⟨s, .test c.field check, hs, by rw [Filter.ofCondition, hcheck]; rfl, ?_, f,
    .atom hread, ?_⟩
  · intro g hg
    obtain rfl := List.mem_singleton.1 hg
    exact hc.1
  · intro v w hvw
    rw [hholds, Predicate.holds_leaf, Assignment.ofCondition, hvw c check hcheck]
    simp [Filter.holds]

theorem termMatches_join_and {s : Sql} {f : Filter} {ss : List Sql} {fs : List Filter}
    (h : TermTwins s f) (hs : List.Forall₂ TermTwins ss fs) :
    TermMatches (join .and s ss).text (join .and s ss).parameters (f :: fs) := by
  induction hs generalizing s f with
  | nil => rwa [join_nil]
  | cons hnext _ ih =>
    rw [text_join_cons, parameters_join_cons]
    exact h.append (ih hnext)

/-- Conjunctive joins say the same. -/
theorem TermTwins.join_and {s : Sql} {f : Filter} {ss : List Sql} {fs : List Filter}
    (h : TermTwins s f) (hs : List.Forall₂ TermTwins ss fs) :
    TermTwins (Sql.join .and s ss) (Filter.join .and f fs) := by
  have hall := termMatches_join_and h hs
  cases fs with
  | nil => exact hall
  | cons g rest =>
    refine hall.congr ⟨fun o ho => ?_, fun w => ?_⟩
    · obtain rfl := List.mem_singleton.1 ho
      exact areConjunctive_iff.2 hall.1
    · have hjoin : Filter.join .and f (g :: rest) = .all (f :: g :: rest) := rfl
      rw [List.all_cons, List.all_nil, Bool.and_true, hjoin, Filter.holds, allHold_eq_all]

theorem matches_join_or {s : Sql} {f : Filter} {ss : List Sql} {fs : List Filter}
    (h : TermTwins s f) (hs : List.Forall₂ TermTwins ss fs) :
    Matches (join .or s ss).text (join .or s ss).parameters ((f :: fs).map conjuncts) := by
  induction hs generalizing s f with
  | nil =>
    rw [join_nil]
    exact .last (h.congr (sameTerm_conjuncts h.isConjunctive))
  | cons hnext _ ih =>
    rw [text_join_cons, parameters_join_cons]
    exact .more (h.congr (sameTerm_conjuncts h.isConjunctive)) (ih hnext)

/-- Disjunctive joins of conjunctive filters say the same. -/
theorem TermTwins.join_or {s : Sql} {f : Filter} {ss : List Sql} {fs : List Filter}
    (h : TermTwins s f) (hs : List.Forall₂ TermTwins ss fs) :
    RowTwins (Sql.join .or s ss) (Filter.join .or f fs) := by
  have hrow := matches_join_or h hs
  cases fs with
  | nil =>
    rw [RowTwins, Filter.join, disjuncts_of_isConjunctive h.isConjunctive]
    exact hrow
  | cons g rest => exact hrow

theorem text_concat_singleton (s t : Sql) (j : Joiner) :
    (Sql.concat s [(some j, t)]).text = s.text ++ j.sql ++ t.text := by
  simp [Sql.concat, Sql.follow, text, Piece.text, String.append_assoc]

theorem parameters_concat_singleton (s t : Sql) (j : Joiner) :
    (Sql.concat s [(some j, t)]).parameters = s.parameters ++ t.parameters := by
  simp [Sql.concat, Sql.follow, parameters, Piece.values]

theorem concat_cons (s : Sql) (part : Option Joiner × Sql) (rest : List (Option Joiner × Sql)) :
    Sql.concat s (part :: rest) = Sql.concat (Sql.concat s [part]) rest := by
  simp [Sql.concat]

/-- A part of a text and a part of a filter that stand behind the same joiner and say the same. -/
def PartTwins (a : Option Joiner × Sql) (b : Option Joiner × Filter) : Prop :=
  a.1 = b.1 ∧ a.1.isSome ∧ RowTwins a.2 b.2

/-- **Rows say the same** whose parts do, if each part but the first stands behind a joiner. -/
theorem RowTwins.concat {s : Sql} {f : Filter} {ss : List (Option Joiner × Sql)}
    {fs : List (Option Joiner × Filter)} (h : RowTwins s f) (hs : List.Forall₂ PartTwins ss fs) :
    RowTwins (Sql.concat s ss) (Filter.concat f fs) := by
  -- the terms grow with the text, part by part
  have grow {s : Sql} {terms : List (List Filter)} (h : Matches s.text s.parameters terms) :
      Matches (Sql.concat s ss).text (Sql.concat s ss).parameters
        (fs.foldl Filter.follow terms) := by
    induction hs generalizing s terms with
    | nil => simpa [Sql.concat] using h
    | @cons a b ss fs hpart _ ih =>
      obtain ⟨j, t⟩ := a
      obtain ⟨j', g⟩ := b
      obtain ⟨rfl, hsome, hrow⟩ := hpart
      obtain ⟨j, rfl⟩ := Option.isSome_iff_exists.1 hsome
      rw [concat_cons, List.foldl_cons]
      refine ih ?_
      rw [text_concat_singleton, parameters_concat_singleton]
      exact h.follow j hrow
  exact (grow h).ofDisjuncts

/-! ### Fragments -/

/-- A text and a filter are related and lead with the same joiner, or both are missing. -/
def Twins (R : Sql → Filter → Prop) (x : Option (Fragment Sql)) (y : Option (Fragment Filter)) :
    Prop :=
  Option.Rel (fun a b => a.leading = b.leading ∧ R a.body b.body) x y

variable {R R' : Sql → Filter → Prop} {xs : List (Option (Fragment Sql))}
  {ys : List (Option (Fragment Filter))} {placeholder : String}

theorem Twins.imp {x : Option (Fragment Sql)} {y : Option (Fragment Filter)} (h : Twins R x y)
    (hR : ∀ s f, R s f → R' s f) : Twins R' x y := by
  cases h with
  | none => exact .none
  | some h => exact .some ⟨h.1, hR _ _ h.2⟩

theorem Twins.filterMap (h : List.Forall₂ (Twins R) xs ys) :
    List.Forall₂ (fun a b => a.leading = b.leading ∧ R a.body b.body) (xs.filterMap id)
      (ys.filterMap id) :=
  List.rel_filterMap (fun _ _ hx => hx) h

/-- Joined twins are twins if the joined bodies are related. -/
theorem twins_joinFragments {j : Joiner} (h : List.Forall₂ (Twins R) xs ys)
    (hjoin : ∀ s f ss fs, R s f → List.Forall₂ R ss fs →
      R' (Sql.join j s ss) (Filter.join j f fs)) :
    Twins R' ((Dialect.relational placeholder).joinFragments j xs)
      (Dialect.document.joinFragments j ys) := by
  have kept := Twins.filterMap h
  unfold Dialect.joinFragments
  generalize xs.filterMap id = ss at kept ⊢
  generalize ys.filterMap id = fs at kept ⊢
  cases kept with
  | nil => exact .none
  | cons hfirst hrest =>
    refine .some ⟨rfl, hjoin _ _ _ _ hfirst.2 ?_⟩
    rw [List.forall₂_map_left_iff, List.forall₂_map_right_iff]
    exact hrest.imp fun a b hab => hab.2

/-- A joiner in front of a single child changes only the joiner. -/
theorem twins_joinFragments_single {j : Joiner} {x : Option (Fragment Sql)}
    {y : Option (Fragment Filter)} (h : Twins R x y) :
    Twins R ((Dialect.relational placeholder).joinFragments j [x])
      (Dialect.document.joinFragments j [y]) := by
  cases h with
  | none => exact .none
  | @some a b h =>
    have hbody : R (Sql.join j a.body []) (Filter.join j b.body []) := by
      rw [join_nil]
      exact h.2
    exact .some ⟨rfl, hbody⟩

/-- Rows of twins are twins if each part but the first stands behind a joiner. -/
theorem twins_addFragments (h : List.Forall₂ (Twins RowTwins) xs ys)
    (hleading : ∀ a ∈ (xs.filterMap id).tail, a.leading.isSome) :
    Twins RowTwins ((Dialect.relational placeholder).addFragments xs)
      (Dialect.document.addFragments ys) := by
  have kept := Twins.filterMap h
  unfold Dialect.addFragments
  generalize xs.filterMap id = ss at kept hleading ⊢
  generalize ys.filterMap id = fs at kept ⊢
  cases kept with
  | nil => exact .none
  | cons hfirst hrest =>
    refine .some ⟨rfl, hfirst.2.concat ?_⟩
    rw [List.forall₂_map_left_iff, List.forall₂_map_right_iff]
    exact forall₂_imp_of_mem hrest fun a ha b hab => ⟨hab.1, hleading a ha, hab.2⟩

end QueryCache
