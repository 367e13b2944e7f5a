import QueryCache.Proofs.Filter.Terms
import QueryCache.Proofs.Query.Chain

/-!
# Nested disjunctions in chains

A text does not show how the disjunctions of a link are nested, but the filter of the link does, and
a chain takes this filter apart to its outermost disjuncts only. So long as no conjunctive joiner
follows, a nested disjunction among them says what its own disjuncts say. If one does follow, what
stands behind it is added to the nested disjunction as a whole, where the text adds it to the last
of the disjuncts alone. Apart from that, chains with the same text have filters that hold alike.

## Main definitions

* `Filter.alternatives` : the disjuncts of a filter, those of nested disjunctions in their places.
* `Filter.endsNested` : the last disjunct of a filter is a disjunction itself.
* `NestedTwins` : a text says what the alternatives of a filter say.
* `Assembly.IsRow` : assemblies without groups and without disjunctions below conjunctions.
* `Assembly.PlainChains` : no conjunctive link stands behind a nested disjunction.

## Main results

* `Filter.IsProper.alternatives_eq` : the alternatives of a filter are those of its disjuncts.
* `NestedTwins.concat` : a chain says what its text says.
* `Assembly.IsRow.twins` : what assemblies yield for the two targets.
* `Assembly.rows_hold_alike` : chains with the same text have filters that hold alike.
* `Assembly.nested_disjunction_extended` : a conjunctive link behind a nested disjunction.
-/

namespace QueryCache

/-! ### Alternatives -/

namespace Filter

mutual

/-- The disjuncts of a filter as lists of conjuncts, with those of nested disjunctions in their
places. -/
def alternatives : Filter → List (List Filter)
  | .test field check => [[.test field check]]
  | .all operands => [operands]
  | .any operands => alternativesOfAll operands

/-- The alternatives of several filters, one filter after the other. -/
def alternativesOfAll : List Filter → List (List Filter)
  | [] => []
  | f :: rest => alternatives f ++ alternativesOfAll rest

end

theorem alternativesOfAll_eq_flatMap (fs : List Filter) :
    alternativesOfAll fs = fs.flatMap alternatives := by
  induction fs with
  | nil => rfl
  | cons f rest ih => rw [alternativesOfAll, ih, List.flatMap_cons]

/-- The alternatives of a disjunct: a single conjunct may be a disjunction itself. -/
def spread : List Filter → List (List Filter)
  | [f] => alternatives f
  | t => [t]

/-- The filter is a disjunction. -/
def isDisjunction : Filter → Bool
  | .any _ => true
  | _ => false

/-- The last disjunct of a filter is a disjunction itself, or has one among its conjuncts. -/
def endsNested (f : Filter) : Bool := f.disjuncts.getLast?.any fun t => t.any isDisjunction

theorem spread_of_length {t : List Filter} (h : 2 ≤ t.length) : spread t = [t] := by
  match t, h with
  | f :: g :: rest, _ => rfl

/-- A disjunct without disjunctions among its conjuncts is an alternative itself. -/
theorem spread_of_plain {t : List Filter} (h : IsProduct t)
    (hplain : ∀ g ∈ t, g.isDisjunction = false) : spread t = [t] := by
  match t, h, hplain with
  | [], h, _ => exact (h.1 rfl).elim
  | [.test _ _], _, _ => rfl
  | [.all operands], h, _ => exact (h.2 operands rfl).elim
  | [.any _], _, hplain => cases hplain _ List.mem_cons_self
  | f :: g :: rest, _, _ => rfl

theorem alternatives_of_not_isDisjunction {f : Filter} (h : f.isDisjunction = false) :
    f.alternatives = [f.conjuncts] := by
  cases f with
  | test _ _ | all _ => rfl
  | any _ => cases h

theorem isDisjunction_of_isConjunctive {f : Filter} (h : f.isConjunctive) :
    f.isDisjunction = false := by
  cases f with
  | test _ _ | all _ => rfl
  | any _ => cases h

theorem IsProper.spread_conjuncts {f : Filter} (h : f.IsProper) :
    spread f.conjuncts = f.alternatives := by
  cases h with
  | test _ | any _ _ => rfl
  | all several _ => exact spread_of_length several

/-- **The alternatives of a filter** are those of its disjuncts. -/
theorem IsProper.alternatives_eq {f : Filter} (h : f.IsProper) :
    f.alternatives = f.disjuncts.flatMap spread := by
  cases h with
  | test _ => rfl
  | all several _ =>
    exact (spread_of_length several).symm.trans (List.flatMap_singleton spread _).symm
  | @any operands _ each =>
    rw [alternatives, alternativesOfAll_eq_flatMap, Filter.disjuncts, List.flatMap_map]
    exact List.flatMap_congr fun f hf => (each f hf).spread_conjuncts.symm

theorem alternatives_join_or (first : Filter) (rest : List Filter) :
    (join .or first rest).alternatives = (first :: rest).flatMap alternatives := by
  cases rest with
  | nil => exact (List.flatMap_singleton _ _).symm
  | cons f rest => exact alternativesOfAll_eq_flatMap _

/-- A filter in good shape holds where all conjuncts of some alternative do. -/
theorem IsProper.holds_alternatives {f : Filter} (h : f.IsProper) (w : String → Json → Bool) :
    (f.alternatives.any fun t => t.all (holds w)) = f.holds w := by
  induction h with
  | test _ => simp [alternatives]
  | all _ _ _ => simp [alternatives, holds, allHold_eq_all]
  | any _ _ ih =>
    rw [alternatives, alternativesOfAll_eq_flatMap, List.any_flatMap, holds, anyHolds_eq_any]
    exact any_eq_of_forall₂ (List.forall₂_same.2 ih)

/-! ### The last disjunct -/

/-- No conjunct of the last disjunct is a disjunction. -/
def LastPlain (terms : List (List Filter)) : Prop :=
  ∀ t ∈ terms.getLast?, ∀ g ∈ t, g.isDisjunction = false

theorem lastPlain_concat {front : List (List Filter)} {last : List Filter} :
    LastPlain (front ++ [last]) ↔ ∀ g ∈ last, g.isDisjunction = false := by
  rw [LastPlain, List.getLast?_concat]
  exact ⟨fun h => h last rfl, fun h t ht => Option.some.inj ht ▸ h⟩

theorem lastPlain_disjuncts_iff {f : Filter} : LastPlain f.disjuncts ↔ f.endsNested = false := by
  rw [LastPlain, endsNested]
  cases f.disjuncts.getLast? <;> simp

end Filter

open QueryCache.Sql QueryCache.Filter

/-! ### Texts and alternatives -/

section Terms

variable {s r : String} {ps qs : List Json} {terms : List (List Filter)}

theorem Matches.of_single {t : List Filter} (h : Matches s ps [t]) : TermMatches s ps t := by
  cases h with
  | last h => exact h
  | more _ others => exact (others.ne_nil rfl).elim

/-- Behind a disjunctive joiner, the alternatives of a filter are put behind the others. -/
theorem Matches.spread_or {g : Filter} (h : Matches s ps (terms.flatMap spread)) (hg : g.IsProper)
    (hpart : Matches r qs g.alternatives) :
    Matches (s ++ " OR " ++ r) (ps ++ qs) ((terms ++ g.disjuncts).flatMap spread) := by
  rw [List.flatMap_append, ← hg.alternatives_eq]
  exact h.or_append hpart

/-- Behind a conjunctive joiner, the conjuncts of a filter are put behind those of the last
disjunct, if that one has no disjunction among them. Then it still has none. -/
theorem Matches.spread_and {front : List (List Filter)} {last : List Filter} {g : Filter}
    (h : Matches s ps ((front ++ [last]).flatMap spread)) (hproduct : IsProduct last)
    (hplain : ∀ o ∈ last, o.isDisjunction = false) (hproper : g.IsProper) (hg : g.isConjunctive)
    (hpart : Matches r qs g.alternatives) :
    Matches (s ++ " AND " ++ r) (ps ++ qs) ((front ++ [last ++ g.conjuncts]).flatMap spread) ∧
      ∀ o ∈ last ++ g.conjuncts, o.isDisjunction = false := by
  have hwhole : spread (last ++ g.conjuncts) = [last ++ g.conjuncts] :=
    spread_of_length (two_le_length_append hproduct.1 hproper.conjuncts.1)
  rw [List.flatMap_append, List.flatMap_singleton, spread_of_plain hproduct hplain] at h
  rw [alternatives_of_not_isDisjunction (isDisjunction_of_isConjunctive hg)] at hpart
  have hand := h.and_append hpart
  rw [extendLast_concat, List.append_nil] at hand
  refine ⟨?_, List.forall_mem_append.2 ⟨hplain, fun o ho => ?_⟩⟩
  · rw [List.flatMap_append, List.flatMap_singleton, hwhole]
    exact hand
  · exact isDisjunction_of_isConjunctive (isConjunctive_iff_conjuncts.1 hg o ho)

end Terms

/-- A text says what the alternatives of a filter in good shape say. Under the condition, the filter
consists of tests under conjunctions. -/
def NestedTwins (conjunctive : Prop) (s : Sql) (f : Filter) : Prop :=
  f.IsProper ∧ (conjunctive → f.isConjunctive) ∧ Matches s.text s.parameters f.alternatives

namespace NestedTwins

variable {P Q : Prop} {s : Sql} {f : Filter} {ss : List Sql} {fs : List Filter}

theorem mono (h : NestedTwins P s f) (hPQ : Q → P) : NestedTwins Q s f :=
  ⟨h.1, fun hQ => h.2.1 (hPQ hQ), h.2.2⟩

/-- A text that says what a conjunctive filter says, in other words. -/
theorem of_termTwins (hproper : f.IsProper) (h : TermTwins s f) : NestedTwins P s f := by
  refine ⟨hproper, fun _ => h.isConjunctive, ?_⟩
  rw [alternatives_of_not_isDisjunction (isDisjunction_of_isConjunctive h.isConjunctive)]
  exact .last (h.congr (sameTerm_conjuncts h.isConjunctive))

theorem termTwins (h : NestedTwins True s f) : TermTwins s f := by
  have hconjunctive := h.2.1 trivial
  have hterm := h.2.2
  rw [alternatives_of_not_isDisjunction (isDisjunction_of_isConjunctive hconjunctive)] at hterm
  refine hterm.of_single.congr ⟨List.forall_mem_singleton.2 hconjunctive, fun w => ?_⟩
  rw [all_conjuncts, List.all_cons, List.all_nil, Bool.and_true]

theorem isProper_cons (h : NestedTwins P s f) (hs : List.Forall₂ (NestedTwins P) ss fs) :
    ∀ g ∈ f :: fs, g.IsProper := by
  refine List.forall_mem_cons.2 ⟨h.1, fun g hg => ?_⟩
  obtain ⟨_, -, htwins⟩ := exists_mem_of_forall₂ hs hg
  exact htwins.1

/-- Conjunctive joins say the same. -/
theorem join_and (h : NestedTwins True s f) (hs : List.Forall₂ (NestedTwins True) ss fs) :
    NestedTwins P (Sql.join .and s ss) (Filter.join .and f fs) :=
  of_termTwins (isProper_join (h.isProper_cons hs))
    (h.termTwins.join_and (hs.imp fun _ _ htwins => htwins.termTwins))

theorem matches_join_or (h : NestedTwins P s f) (hs : List.Forall₂ (NestedTwins P) ss fs) :
    Matches (Sql.join .or s ss).text (Sql.join .or s ss).parameters
      ((f :: fs).flatMap alternatives) := by
  induction hs generalizing s f with
  | nil =>
    rw [join_nil, List.flatMap_singleton]
    exact h.2.2
  | cons hnext _ ih =>
    rw [text_join_cons, parameters_join_cons, List.flatMap_cons]
    exact h.2.2.or_append (ih hnext)

/-- Disjunctive joins say the same, however their operands are nested. -/
theorem join_or (h : NestedTwins P s f) (hs : List.Forall₂ (NestedTwins P) ss fs) :
    NestedTwins False (Sql.join .or s ss) (Filter.join .or f fs) := by
  refine ⟨isProper_join (h.isProper_cons hs), False.elim, ?_⟩
  rw [alternatives_join_or]
  exact h.matches_join_or hs

end NestedTwins

/-! ### Rows -/

namespace Filter

/-- Conjunctive filters side by side, each behind a conjunctive joiner, make a conjunctive one. -/
theorem isConjunctive_concat {f : Filter} {parts : List (Option Joiner × Filter)}
    (h : f.isConjunctive) (hparts : ∀ part ∈ parts, part.1 = some .and ∧ part.2.isConjunctive) :
    (concat f parts).isConjunctive := by
  -- all conjuncts end up in one disjunct
  have grow {t : List Filter} (ht : ∀ g ∈ t, g.isConjunctive) :
      ∃ u, parts.foldl follow [t] = [u] ∧ ∀ g ∈ u, g.isConjunctive := by
    induction parts generalizing t with
    | nil => exact ⟨t, rfl, ht⟩
    | cons part rest ih =>
      obtain ⟨⟨hjoiner, hpart⟩, hrest⟩ := List.forall_mem_cons.1 hparts
      have hfollow : follow [t] part = [t ++ part.2.conjuncts] := by
        rw [follow, hjoiner, disjuncts_of_isConjunctive hpart]
        rfl
      rw [List.foldl_cons, hfollow]
      exact ih hrest (List.forall_mem_append.2 ⟨ht, isConjunctive_iff_conjuncts.1 hpart⟩)
  obtain ⟨u, hu, hconjunctive⟩ := grow (isConjunctive_iff_conjuncts.1 h)
  rw [concat, disjuncts_of_isConjunctive h, hu]
  exact isConjunctive_ofConjuncts hconjunctive

end Filter

/-- A part of a text and a part of a filter stand behind the same joiner and say the same; behind a
conjunctive joiner, the filter consists of tests under conjunctions. Under the condition, all
joiners are conjunctive. -/
def NestedParts (P : Prop) (a : Option Joiner × Sql) (b : Option Joiner × Filter) : Prop :=
  a.1 = b.1 ∧ a.1.isSome ∧ (P → b.1 = some .and) ∧ NestedTwins (b.1 = some .and) a.2 b.2

/-- No part with a conjunctive joiner stands behind a filter that ends in a nested disjunction. -/
def PlainParts (parts : List (Option Joiner × Filter)) : Prop :=
  parts.IsChain fun a b => b.1 = some .and → a.2.endsNested = false

section Follow

variable {s : Sql} {terms : List (List Filter)} {t : Sql} {g : Filter} {j : Joiner} {P : Prop}

/-- The disjuncts of a filter behind others, and a text behind another one. The last disjunct has no
disjunction among its conjuncts if that of the filter has none. -/
theorem Matches.spread_follow (h : Matches s.text s.parameters (terms.flatMap spread))
    (hproducts : AreProducts terms) (hpart : NestedTwins (some j = some .and) t g)
    (hplain : some j = some .and → LastPlain terms) :
    Matches (Sql.concat s [(some j, t)]).text (Sql.concat s [(some j, t)]).parameters
        ((Filter.follow terms (some j, g)).flatMap spread) ∧
      (g.endsNested = false → LastPlain (Filter.follow terms (some j, g))) := by
  obtain ⟨hproper, hconjunctive, hmatches⟩ := hpart
  rw [text_concat_singleton, parameters_concat_singleton]
  cases j with
  | or =>
    have hfollow : Filter.follow terms (some .or, g) = terms ++ g.disjuncts := rfl
    rw [hfollow]
    refine ⟨h.spread_or hproper hmatches, fun hg => ?_⟩
    rw [LastPlain, List.getLast?_append_of_ne_nil _ hproper.disjuncts.1]
    exact lastPlain_disjuncts_iff.2 hg
  | and =>
    have hg := hconjunctive rfl
    obtain rfl | ⟨front, last, rfl⟩ := List.eq_nil_or_concat' terms
    · exact (hproducts.ne_nil rfl).elim
    have hfollow : Filter.follow (front ++ [last]) (some .and, g) =
        front ++ [last ++ g.conjuncts] := by
      rw [Filter.follow, disjuncts_of_isConjunctive hg]
      change extendLast (front ++ [last]) g.conjuncts ++ [] = _
      rw [extendLast_concat, List.append_nil]
    have hproduct := hproducts.each last (List.mem_append_right _ List.mem_cons_self)
    obtain ⟨hand, hlast⟩ :=
      h.spread_and hproduct (lastPlain_concat.1 (hplain rfl)) hproper hg hmatches
    rw [hfollow]
    exact ⟨hand, fun _ => lastPlain_concat.2 hlast⟩

/-- The disjuncts of filters behind others grow with the text, part by part. -/
theorem Matches.spread_foldl {before : Option Joiner × Filter} {ss : List (Option Joiner × Sql)}
    {fs : List (Option Joiner × Filter)} (h : Matches s.text s.parameters (terms.flatMap spread))
    (hproducts : AreProducts terms) (hparts : List.Forall₂ (NestedParts P) ss fs)
    (hplain : PlainParts (before :: fs)) (hlast : before.2.endsNested = false → LastPlain terms) :
    Matches (Sql.concat s ss).text (Sql.concat s ss).parameters
      ((fs.foldl Filter.follow terms).flatMap spread) := by
  -- carried along: the last disjunct so far is plain if that of the part before is
  induction hparts generalizing before s terms with
  | nil => simpa [Sql.concat] using h
  | @cons a b ss fs hpart _ ih =>
    obtain ⟨hbetween, hrest⟩ := List.isChain_cons_cons.1 hplain
    obtain ⟨j, t⟩ := a
    obtain ⟨j', g⟩ := b
    obtain ⟨rfl, hsome, -, htwins⟩ := hpart
    obtain ⟨j, rfl⟩ := Option.isSome_iff_exists.1 hsome
    obtain ⟨hnext, hlast'⟩ := h.spread_follow hproducts htwins fun hand => hlast (hbetween hand)
    rw [concat_cons, List.foldl_cons]
    exact ih hnext (hproducts.follow htwins.1) hrest hlast'

/-- **A chain says what its text says**, if no conjunctive part stands behind a filter that ends in
a nested disjunction. -/
theorem NestedTwins.concat {lead : Option Joiner} {f : Filter} {ss : List (Option Joiner × Sql)}
    {fs : List (Option Joiner × Filter)} (h : NestedTwins P s f)
    (hparts : List.Forall₂ (NestedParts P) ss fs) (hplain : PlainParts ((lead, f) :: fs)) :
    NestedTwins P (Sql.concat s ss) (Filter.concat f fs) := by
  have hproper : ∀ part ∈ fs, part.2.IsProper := by
    intro part hmem
    obtain ⟨_, -, -, -, -, hpart⟩ := exists_mem_of_forall₂ hparts hmem
    exact hpart.1
  have hwhole := isProper_concat h.1 hproper
  refine ⟨hwhole, fun hP => isConjunctive_concat (h.2.1 hP) fun part hmem => ?_, ?_⟩
  · obtain ⟨_, -, -, -, hand, hpart⟩ := exists_mem_of_forall₂ hparts hmem
    exact ⟨hand hP, hpart.2.1 (hand hP)⟩
  · have hstart := h.2.2
    rw [h.1.alternatives_eq] at hstart
    rw [hwhole.alternatives_eq, disjuncts_concat h.1 hproper]
    exact hstart.spread_foldl h.1.areProducts_disjuncts hparts hplain lastPlain_disjuncts_iff.2

end Follow

/-! ### Fragments -/

/-- A text and a filter lead with the same joiner and say the same. Behind a conjunctive joiner, and
under the condition, the filter consists of tests under conjunctions; under the condition the joiner
is not disjunctive. -/
def LinkTwins (P : Prop) (a : Fragment Sql) (b : Fragment Filter) : Prop :=
  a.leading = b.leading ∧ (P → b.leading ≠ some .or) ∧
    NestedTwins (P ∨ b.leading = some .and) a.body b.body

/-- Fragments side by side say the same, if no conjunctive one stands behind a filter that ends in
a nested disjunction. -/
theorem twins_addFragments_nested {P : Prop} {xs : List (Option (Fragment Sql))}
    {ys : List (Option (Fragment Filter))} (h : List.Forall₂ (Option.Rel (LinkTwins P)) xs ys)
    (hleading : ∀ a ∈ (xs.filterMap id).tail, a.leading.isSome)
    (hplain : PlainParts ((ys.filterMap id).map fun f => (f.leading, f.body))) :
    Twins (NestedTwins P) ((Dialect.relational "?").addFragments xs)
      (Dialect.document.addFragments ys) := by
  have kept : List.Forall₂ (LinkTwins P) (xs.filterMap id) (ys.filterMap id) :=
    List.rel_filterMap (fun _ _ hx => hx) h
  unfold Dialect.addFragments
  generalize xs.filterMap id = ss at kept hleading ⊢
  generalize ys.filterMap id = fs at kept hplain ⊢
  cases kept with
  | nil => exact .none
  | @cons a b ss fs hfirst hrest =>
    refine .some ⟨rfl, (hfirst.2.2.mono Or.inl).concat ?_ hplain⟩
    rw [List.forall₂_map_left_iff, List.forall₂_map_right_iff]
    refine forall₂_imp_of_mem hrest fun f hf g hfg => ?_
    obtain ⟨hsame, hor, htwins⟩ := hfg
    refine ⟨hsame, hleading f hf, fun hP => ?_, htwins.mono Or.inr⟩
    -- a joiner that is not disjunctive
    obtain ⟨j, hj⟩ := Option.isSome_iff_exists.1 (hleading f hf)
    have hg := hsame.symm.trans hj
    cases j with
    | and => exact hg
    | or => exact (hor hP hg).elim

/-! ### What trees compile to -/

/-- Trees without groups and without disjunctions below conjunctions compile to a text and a filter
that says the same, however its disjunctions are nested. -/
theorem Predicate.compilesToTwins_nested {p : Predicate} {below : Bool}
    (hgroup : p.hasGroup = false) (hshape : p.orsOutside below)
    (hp : ∀ c ∈ p.leaves, c.IsWellFormed) :
    p.CompilesToTwins (NestedTwins (below = true ∨ p.leading = some .and)) := by
  induction p using Predicate.inductionOn generalizing below with
  | leaf c =>
    obtain ⟨s, f, hs, hf, htwins⟩ := termTwins_ofCondition (hp c (List.mem_singleton.2 rfl))
    obtain ⟨check, hcheck, rfl⟩ := Option.map_eq_some_iff.1 hf
    exact compilesToTwins_leaf hs hf (.of_termTwins (.test (isCheck_of_check? hcheck)) htwins)
  | and children ih =>
    rw [orsOutside, orsOutsideAll_iff] at hshape
    refine compilesToTwins_and (R := NestedTwins True) (fun p hmem => ?_) fun _ _ _ _ =>
      NestedTwins.join_and
    have hbelow := ih p hmem (someHasGroup_eq_false_iff.1 hgroup p hmem) (hshape p hmem)
      fun c hc => hp c (mem_leavesOfAll.2 ⟨p, hmem, hc⟩)
    exact hbelow.imp fun _ _ htwins => htwins.mono fun _ => .inl rfl
  | or children ih =>
    rw [orsOutside, Bool.and_eq_true, orsOutsideAll_iff] at hshape
    obtain ⟨houtside, hshape⟩ := hshape
    obtain rfl : below = false := by simpa using houtside
    have hor : (or children).CompilesToTwins (NestedTwins False) := by
      refine compilesToTwins_or (R := NestedTwins False) (fun p hmem => ?_) fun _ _ _ _ =>
        NestedTwins.join_or
      have hbelow := ih p hmem (someHasGroup_eq_false_iff.1 hgroup p hmem) (hshape p hmem)
        fun c hc => hp c (mem_leavesOfAll.2 ⟨p, hmem, hc⟩)
      exact hbelow.imp fun _ _ htwins => htwins.mono False.elim
    exact hor.imp fun _ _ htwins => htwins.mono (by simp [Predicate.leading])
  | group p _ => cases hgroup

/-! ### What assemblies yield -/

namespace Assembly

/-- The fragment that an assembly yields for documents, if any. -/
def filter? (a : Assembly) : Option (Fragment Filter) :=
  match a.clause ⟨.document, "?"⟩ >>= Dialect.document.resolve with
  | .ok x => x
  | .error _ => none

theorem Yields.filter? {a : Assembly} {x : Option (Fragment Filter)}
    (h : a.Yields ⟨.document, "?"⟩ .document x) : a.filter? = x := by
  obtain ⟨k, hk, hx⟩ := h
  rw [Assembly.filter?, hk]
  simp only [bind, Except.bind, hx]

/-- No link with a conjunctive joiner stands behind one whose filter ends in a nested
disjunction. -/
def PlainEnds (links : List Assembly) : Prop :=
  PlainParts ((links.filterMap filter?).map fun f => (f.leading, f.body))

theorem PlainEnds.fragments {links : List Assembly} {xs : List (Option (Fragment Filter))}
    (h : PlainEnds links) (hxs : List.Forall₂ (Yields ⟨.document, "?"⟩ .document) links xs) :
    PlainParts ((xs.filterMap id).map fun f => (f.leading, f.body)) := by
  have hsame : links.filterMap filter? = xs.filterMap id := by
    clear h
    induction hxs with
    | nil => rfl
    | cons hx _ ih => rw [List.filterMap_cons, List.filterMap_cons, hx.filter?, ih]; rfl
  rw [PlainEnds, hsame] at h
  exact h

/-- Assemblies without groups and without disjunctions below conjunctions, whose chains have a
joiner in front of every link after the first one. The flag says whether a conjunction stands
above. -/
inductive IsRow : Bool → Assembly → Prop
  | empty {below} : IsRow below .empty
  | node {below p} (groupless : p.hasGroup = false) (h : p.orsOutside below) : IsRow below (.node p)
  | compile {below p} (groupless : p.hasGroup = false) (h : p.orsOutside below) :
      IsRow below (.compile p)
  | conjunction {below parts} (h : ∀ a ∈ parts, IsRow true a) : IsRow below (.join .and parts)
  | disjunction {parts} (h : ∀ a ∈ parts, IsRow false a) : IsRow false (.join .or parts)
  | chain {below links} (h : ∀ a ∈ links, IsRow below a) (joined : WellJoined links) :
      IsRow below (.add links)

/-- In no chain of the assembly a conjunctive link stands behind a nested disjunction. -/
inductive PlainChains : Assembly → Prop
  | empty : PlainChains .empty
  | node {p} : PlainChains (.node p)
  | compile {p} : PlainChains (.compile p)
  | join {j parts} (h : ∀ a ∈ parts, PlainChains a) : PlainChains (.join j parts)
  | chain {links} (h : ∀ a ∈ links, PlainChains a) (plain : PlainEnds links) :
      PlainChains (.add links)
  | group {part} (h : PlainChains part) : PlainChains (.group part)

theorem IsRow.leading_ne_or {a : Assembly} (h : a.IsRow true) : a.leading ≠ some .or := by
  have tree {p : Predicate} (hgroup : p.hasGroup = false) (hp : p.orsOutside true) :
      p.leading ≠ some .or := by
    cases p with
    | leaf c => exact nofun
    | and children => exact nofun
    | or children => cases hp
    | group p => cases hgroup
  cases h with
  | empty => exact nofun
  | node groupless h => exact tree groupless h
  | compile groupless h => exact tree groupless h
  | conjunction _ => exact nofun
  | chain _ _ => exact nofun

/-- **What assemblies yield for the two targets** says the same. -/
theorem IsRow.twins {below : Bool} {a : Assembly} (h : a.IsRow below) (hplain : a.PlainChains)
    (hleaves : ∀ c ∈ a.leaves .relational, c.IsWellFormed) :
    a.YieldsTwins "?" (NestedTwins (below = true ∨ a.leading = some .and)) := by
  induction h with
  | empty =>
    exact ⟨none, none, (yields_empty (Compiler.speaks_relational _)).2 rfl,
      (yields_empty (Compiler.speaks_document _)).2 rfl, .none⟩
  | node groupless h =>
    rw [leaves, leaves_of_conditions] at hleaves
    exact yieldsTwins_node (Predicate.compilesToTwins_nested groupless h hleaves)
  | compile groupless h =>
    rw [leaves, leaves_of_conditions] at hleaves
    exact yieldsTwins_compile (Predicate.compilesToTwins_nested groupless h hleaves)
  | conjunction _ ih =>
    cases hplain with | join hplain =>
    refine yieldsTwins_join (R := NestedTwins True) (fun a ha => ?_) fun _ _ _ _ =>
      NestedTwins.join_and
    exact (ih a ha (hplain a ha) fun c hc => hleaves c (mem_leavesOfAll.2 ⟨a, ha, hc⟩)).imp
      fun _ _ htwins => htwins.mono fun _ => .inl rfl
  | @disjunction parts _ ih =>
    cases hplain with | join hplain =>
    have hor : (join .or parts).YieldsTwins "?" (NestedTwins False) := by
      refine yieldsTwins_join (R := NestedTwins False) (fun a ha => ?_) fun _ _ _ _ =>
        NestedTwins.join_or
      exact (ih a ha (hplain a ha) fun c hc => hleaves c (mem_leavesOfAll.2 ⟨a, ha, hc⟩)).imp
        fun _ _ htwins => htwins.mono False.elim
    exact hor.imp fun _ _ htwins => htwins.mono (by simp [Assembly.leading])
  | @chain below links h joined ih =>
    cases hplain with | chain hplain plain =>
    obtain ⟨xs, ys, hxs, hys, hall⟩ := exists_forall₂_pair fun a ha => by
      obtain ⟨x, y, hx, hy, hxy⟩ := ih a ha (hplain a ha) fun c hc =>
        hleaves c (mem_leavesOfAll.2 ⟨a, ha, hc⟩)
      have hleading := hy.leading (Compiler.speaks_document _)
      have hlink : Option.Rel (LinkTwins (below = true)) x y := by
        cases hxy with
        | none => exact .none
        | @some f g hfg =>
          have hg := hleading g rfl
          refine .some ⟨hfg.1, fun hbelow => ?_, hg ▸ hfg.2⟩
          subst hbelow
          exact hg ▸ (h a ha).leading_ne_or
      exact ⟨x, y, hx, hy, hlink⟩
    have hchain := twins_addFragments_nested hall (joined.leading hxs) (plain.fragments hys)
    exact ⟨_, _, (yields_add (Compiler.speaks_relational _)).2 ⟨xs, hxs, rfl⟩,
      (yields_add (Compiler.speaks_document _)).2 ⟨ys, hys, rfl⟩,
      hchain.imp fun _ _ htwins => htwins.mono (by simp [Assembly.leading])⟩

/-! ### Chains with the same text -/

/-- **The text and the filter of a chain hold at the same time**, or both are empty. -/
theorem IsRow.holds {links : List Assembly} (h : (add links).IsRow false)
    (hplain : (add links).PlainChains)
    (hleaves : ∀ c ∈ (add links).leaves .relational, c.IsWellFormed) :
    ∃ q r text document,
      (add links).clause ⟨.relational, "?"⟩ = .ok (.compiled q) ∧ q.sql? = some text ∧
      (add links).clause ⟨.document, "?"⟩ = .ok (.compiled r) ∧ r.document? = some document ∧
      (text = "" ∧ document = .obj [] ∨ document ≠ .obj [] ∧
        ∃ f, Sql.Reads .disjunction text q.parameters f ∧
          ∀ v w, Filter.Agree v w → f.holds v = Filter.documentHolds w document) := by
  obtain ⟨x, y, hx, hy, hxy⟩ := h.twins hplain hleaves
  have hclause := hx.clause_add (Compiler.speaks_relational _)
  have hclause' := hy.clause_add (Compiler.speaks_document _)
  cases hxy with
  | none => exact ⟨_, _, _, _, hclause, rfl, hclause', rfl, .inl ⟨rfl, rfl⟩⟩
  | @some f g htwins =>
    obtain ⟨hproper, -, hmatches⟩ := htwins.2
    obtain ⟨formula, hread, hholds⟩ := hmatches.holds
    refine ⟨_, _, _, _, hclause, rfl, hclause', rfl,
      .inr ⟨toJson_ne_empty g.body, formula, hread, fun v w hvw => ?_⟩⟩
    rw [hholds v w hvw, hproper.holds_toJson, hproper.holds_alternatives]

/-- **Chains with the same text have filters that hold alike.** Let two chains have no groups and no
disjunctions below conjunctions, with a joiner in front of every link after the first one, and let
no conjunctive link stand behind a link whose filter ends in a nested disjunction. Both chains can
be assembled for both targets. If they have the same text and the same parameters, however their
disjunctions are nested, then both filter objects are empty or none is, and the two hold under the
same truth values. -/
theorem rows_hold_alike {links links' : List Assembly} (h : (add links).IsRow false)
    (h' : (add links').IsRow false) (hplain : (add links).PlainChains)
    (hplain' : (add links').PlainChains)
    (hleaves : ∀ c ∈ (add links).leaves .relational, c.IsWellFormed)
    (hleaves' : ∀ c ∈ (add links').leaves .relational, c.IsWellFormed) :
    ∃ q q' r r' document document',
      (add links).clause ⟨.relational, "?"⟩ = .ok (.compiled q) ∧
      (add links').clause ⟨.relational, "?"⟩ = .ok (.compiled q') ∧
      (add links).clause ⟨.document, "?"⟩ = .ok (.compiled r) ∧ r.document? = some document ∧
      (add links').clause ⟨.document, "?"⟩ = .ok (.compiled r') ∧ r'.document? = some document' ∧
      (q.sql? = q'.sql? → q.parameters = q'.parameters →
        (document = .obj [] ↔ document' = .obj []) ∧
          ∀ w, Filter.documentHolds w document = Filter.documentHolds w document') := by
  obtain ⟨q, r, text, document, hq, htext, hr, hdocument, hsays⟩ := h.holds hplain hleaves
  obtain ⟨q', r', text', document', hq', htext', hr', hdocument', hsays'⟩ :=
    h'.holds hplain' hleaves'
  refine ⟨q, q', r, r', document, document', hq, hq', hr, hdocument, hr', hdocument', ?_⟩
  intro hsql hparameters
  obtain rfl : text = text' := Option.some.inj (htext.symm.trans (hsql.trans htext'))
  rcases hsays with ⟨hempty, rfl⟩ | ⟨hne, f, hread, hholds⟩ <;>
    rcases hsays' with ⟨hempty', rfl⟩ | ⟨hne', f', hread', hholds'⟩
  · exact ⟨Iff.rfl, fun w => rfl⟩
  · exact (hread'.text_ne_empty hempty).elim
  · exact (hread.text_ne_empty hempty').elim
  · refine ⟨iff_of_false hne hne', fun w => ?_⟩
    obtain ⟨v, hvw⟩ := Filter.exists_agree w
    obtain rfl : f = f' := hread.unique (hparameters ▸ hread')
    exact (hholds v w hvw).symm.trans (hholds' v w hvw)

theorem isWellFormed_isNull (fields : List String) (h : fields.all Sql.isFieldName) :
    ∀ c ∈ fields.map fun field => (⟨field, .isNull, .null⟩ : Condition), c.IsWellFormed :=
  List.forall_mem_map.2 fun field hfield => ⟨List.all_eq_true.1 h field hfield, nofun⟩

/-- A nested disjunction with a disjunctive link behind it, then a conjunctive one. -/
theorem rows_hold_alike_nested : ∃ links links' q q' r r' document document',
    links = [.node (.or [.isNull "x", .or [.isNull "y", .isNull "z"]]),
      .join .or [.node (.isNull "v")], .join .and [.node (.isNull "w")]] ∧
    links' = [.node (.or [.isNull "x", .isNull "y", .isNull "z", .isNull "v"]),
      .join .and [.node (.isNull "w")]] ∧
    (add links).clause ⟨.relational, "?"⟩ = .ok (.compiled q) ∧
    (add links').clause ⟨.relational, "?"⟩ = .ok (.compiled q') ∧ q.sql? = q'.sql? ∧
    (add links).clause ⟨.document, "?"⟩ = .ok (.compiled r) ∧ r.document? = some document ∧
    (add links').clause ⟨.document, "?"⟩ = .ok (.compiled r') ∧ r'.document? = some document' ∧
    document ≠ document' ∧
    ∀ w, Filter.documentHolds w document = Filter.documentHolds w document' := by
  have hlinks : (add [.node (.or [.isNull "x", .or [.isNull "y", .isNull "z"]]),
      .join .or [.node (.isNull "v")], .join .and [.node (.isNull "w")]]).IsRow false :=
    .chain (List.forall_mem_cons.2 ⟨.node rfl rfl, List.forall_mem_cons.2
      ⟨.disjunction (List.forall_mem_singleton.2 (.node rfl rfl)), List.forall_mem_singleton.2
        (.conjunction (List.forall_mem_singleton.2 (.node rfl rfl)))⟩⟩)
      (List.forall_mem_cons.2 ⟨rfl, List.forall_mem_singleton.2 rfl⟩)
  have hlinks' : (add [.node (.or [.isNull "x", .isNull "y", .isNull "z", .isNull "v"]),
      .join .and [.node (.isNull "w")]]).IsRow false :=
    .chain (List.forall_mem_cons.2 ⟨.node rfl rfl, List.forall_mem_singleton.2
      (.conjunction (List.forall_mem_singleton.2 (.node rfl rfl)))⟩)
        (List.forall_mem_singleton.2 rfl)
  have single {j : Joiner} {p : Predicate} : (join j [.node p]).PlainChains :=
    .join (List.forall_mem_singleton.2 .node)
  obtain ⟨q, q', r, r', document, document', hq, hq', hr, hdocument, hr', hdocument', halike⟩ :=
    rows_hold_alike hlinks hlinks'
      (.chain (List.forall_mem_cons.2 ⟨.node, List.forall_mem_cons.2
        ⟨single, List.forall_mem_singleton.2 single⟩⟩)
        (.cons_cons nofun (.cons_cons (fun _ => rfl) (.singleton _))))
      (.chain (List.forall_mem_cons.2 ⟨.node, List.forall_mem_singleton.2 single⟩)
        (.cons_cons (fun _ => rfl) (.singleton _)))
      (isWellFormed_isNull ["x", "y", "z", "v", "w"] (by decide +kernel))
      (isWellFormed_isNull ["x", "y", "z", "v", "w"] (by decide +kernel))
  have hsame : q.sql? = q'.sql? ∧ q.parameters = q'.parameters := by
    cases hq
    cases hq'
    exact ⟨by decide +kernel, rfl⟩
  refine ⟨_, _, q, q', r, r', document, document', rfl, rfl, hq, hq', hsame.1, hr, hdocument, hr',
    hdocument', fun heq => ?_, (halike hsame.1 hsame.2).2⟩
  cases hr
  cases hr'
  cases hdocument
  cases hdocument'
  exact absurd (congrArg (fun d => (Filter.splitTerms d).length) heq) (by decide)

/-- **A conjunctive link behind a nested disjunction.** Two chains of links without groups and
without disjunctions below conjunctions, with a joiner in front of the second link, have the same
text and the same parameters, and filter objects that do not hold under the same truth values: the
last link stands with all disjuncts of the nested disjunction in one, with the last disjunct in the
other. -/
theorem nested_disjunction_extended : ∃ links links' q q' r r' document document',
    links = [.node (.or [.isNull "x", .or [.isNull "y", .isNull "z"]]),
      .join .and [.node (.isNull "w")]] ∧
    links' = [.node (.or [.isNull "x", .isNull "y", .isNull "z"]),
      .join .and [.node (.isNull "w")]] ∧
    (add links).IsRow false ∧ (add links').IsRow false ∧
    (∀ c ∈ (add links).leaves .relational, c.IsWellFormed) ∧
    (∀ c ∈ (add links').leaves .relational, c.IsWellFormed) ∧
    (add links).clause ⟨.relational, "?"⟩ = .ok (.compiled q) ∧
    (add links').clause ⟨.relational, "?"⟩ = .ok (.compiled q') ∧
    q.sql? = q'.sql? ∧ q.parameters = q'.parameters ∧
    (add links).clause ⟨.document, "?"⟩ = .ok (.compiled r) ∧ r.document? = some document ∧
    (add links').clause ⟨.document, "?"⟩ = .ok (.compiled r') ∧ r'.document? = some document' ∧
    Filter.documentHolds (fun field _ => field == "y") document = false ∧
    Filter.documentHolds (fun field _ => field == "y") document' = true := by
  have hleaves := isWellFormed_isNull ["x", "y", "z", "w"] (by decide +kernel)
  refine ⟨_, _, _, _, _, _, _, _, rfl, rfl, .chain ?_ (List.forall_mem_singleton.2 rfl),
    .chain ?_ (List.forall_mem_singleton.2 rfl), hleaves, hleaves, rfl, rfl, by decide +kernel, rfl,
    rfl, rfl, rfl, rfl, by decide +kernel, by decide +kernel⟩
  · exact List.forall_mem_cons.2 ⟨.node rfl rfl, List.forall_mem_singleton.2
      (.conjunction (List.forall_mem_singleton.2 (.node rfl rfl)))⟩
  · exact List.forall_mem_cons.2 ⟨.node rfl rfl, List.forall_mem_singleton.2
      (.conjunction (List.forall_mem_singleton.2 (.node rfl rfl)))⟩

end Assembly

end QueryCache
