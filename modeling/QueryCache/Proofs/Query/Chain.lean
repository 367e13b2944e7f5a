import QueryCache.Proofs.Query.Assembly
import QueryCache.Proofs.Query.Twins

/-!
# Chains for both targets

A chain puts queries side by side, each behind the joiner that it leads with. Its text is read with
conjunction binding tighter than disjunction, and its filter is put together from the disjuncts of
its links. Where the links are conjunctions, disjunctions of these, or chains themselves, the text
and the filter of a chain hold at the same time.

## Main definitions

* `Assembly.leading` : the joiner that an assembled query leads with.
* `Assembly.WellJoined` : every link after the first one stands behind a joiner.
* `Assembly.IsLink` : what chains are made of.

## Main results

* `Assembly.Yields.leading` : a query leads with the joiner of its assembly.
* `Assembly.IsLink.twins` : a link yields a text and a filter that say the same.
* `Assembly.chain_holds_alike` : the text and the filter of a chain hold at the same time.
-/

namespace QueryCache

/-! ### Leading joiners -/

/-- The joiner that the query of a tree leads with, if it is not empty. -/
def Predicate.leading : Predicate → Option Joiner
  | .leaf _ => none
  | .and _ => some .and
  | .or _ => some .or
  | .group inner => leading inner

/-- The joiner that an assembled query leads with, if it is not empty. -/
def Assembly.leading : Assembly → Option Joiner
  | .node p => p.leading
  | .empty => none
  | .compile p => p.leading
  | .join j _ => some j
  | .add _ => none
  | .group part => leading part

namespace Dialect

variable {φ : Type} {d : Dialect φ}

theorem leading_joinFragments {j : Joiner} {xs : List (Option (Fragment φ))} :
    ∀ f ∈ d.joinFragments j xs, f.leading = some j := by
  rw [joinFragments]
  cases xs.filterMap id with
  | nil => rintro f ⟨⟩
  | cons first rest =>
    rintro f ⟨⟩
    rfl

theorem leading_addFragments {xs : List (Option (Fragment φ))} :
    ∀ f ∈ d.addFragments xs, f.leading = none := by
  rw [addFragments]
  cases xs.filterMap id with
  | nil => rintro f ⟨⟩
  | cons first rest =>
    rintro f ⟨⟩
    rfl

theorem leading_groupFragment {lead : Option Joiner} {x y : Option (Fragment φ)}
    (hx : ∀ f ∈ x, f.leading = lead) (h : d.groupFragment x = .ok y) :
    ∀ f ∈ y, f.leading = lead := by
  rw [groupFragment] at h
  cases hg : d.group with
  | error e => simp [hg] at h
  | ok wrap =>
    simp only [hg, Except.ok.injEq] at h
    rw [← h]
    rintro _ hg
    obtain ⟨f, hf, rfl⟩ := Option.map_eq_some_iff.1 hg
    exact hx f hf

/-- The query of a tree leads with the joiner of the tree. -/
theorem leading_compile {p : Predicate} {x : Option (Fragment φ)} (h : d.compile p = .ok x) :
    ∀ f ∈ x, f.leading = p.leading := by
  induction p using Predicate.inductionOn generalizing x with
  | leaf c =>
    rw [compile_leaf, ofCondition] at h
    cases hc : d.leaf c with
    | error e => simp [hc] at h
    | ok form =>
      simp only [hc, Except.ok.injEq] at h
      rw [← h]
      rintro _ hg
      obtain ⟨body, -, rfl⟩ := Option.map_eq_some_iff.1 hg
      rfl
  | and children _ =>
    obtain ⟨xs, -, rfl⟩ := d.compile_and_eq_ok_iff.1 h
    exact leading_joinFragments
  | or children _ =>
    obtain ⟨xs, -, rfl⟩ := d.compile_or_eq_ok_iff.1 h
    exact leading_joinFragments
  | group p ih =>
    obtain ⟨y, hy, hgroup⟩ := d.compile_group_eq_ok_iff.1 h
    exact leading_groupFragment (ih hy) hgroup

end Dialect

namespace Assembly

/-- **A query leads with the joiner of its assembly.** -/
theorem Yields.leading {φ : Type} {c : Compiler} {d : Dialect φ}
    {query : Option (Fragment φ) → Query} (h : c.Speaks d query) {a : Assembly}
    {x : Option (Fragment φ)} (hx : a.Yields c d x) : ∀ f ∈ x, f.leading = a.leading := by
  induction a using inductionOn generalizing x with
  | node p => exact Dialect.leading_compile (yields_node.1 hx)
  | empty =>
    rw [(yields_empty h).1 hx]
    exact fun f hf => nomatch hf
  | compile p => exact Dialect.leading_compile ((yields_compile h).1 hx)
  | join j parts _ =>
    obtain ⟨xs, -, rfl⟩ := (yields_join h).1 hx
    exact Dialect.leading_joinFragments
  | add parts _ =>
    obtain ⟨xs, -, rfl⟩ := (yields_add h).1 hx
    exact Dialect.leading_addFragments
  | group part ih =>
    obtain ⟨y, hy, hgroup⟩ := (yields_group h).1 hx
    exact Dialect.leading_groupFragment (ih hy) hgroup

end Assembly

/-! ### Links -/

/-- Trees that are links: conditions under conjunctions, disjunctions of these, and nodes over a
single link. -/
inductive Predicate.IsLink : Predicate → Prop
  | conjunctive {p} (h : p.isConjunctive) : IsLink p
  | disjunction {children} (h : ∀ p ∈ children, p.isConjunctive) : IsLink (.or children)
  | under_and {p} (h : IsLink p) : IsLink (.and [p])
  | under_or {p} (h : IsLink p) : IsLink (.or [p])

namespace Assembly

/-- Assemblies of conditions under conjunctions. -/
inductive IsConjunctive : Assembly → Prop
  | empty : IsConjunctive .empty
  | node {p} (h : p.isConjunctive) : IsConjunctive (.node p)
  | compile {p} (h : p.isConjunctive) : IsConjunctive (.compile p)
  | join {parts} (h : ∀ a ∈ parts, IsConjunctive a) : IsConjunctive (.join .and parts)

/-- Every link that has conditions, after the first such, leads with a joiner. -/
def WellJoined (links : List Assembly) : Prop :=
  ∀ a ∈ (links.filter fun a => !(a.leaves .relational).isEmpty).tail, a.leading.isSome

/-- What chains are made of: conditions under conjunctions, disjunctions of these, chains, and joins
of a single link. -/
inductive IsLink : Assembly → Prop
  | conjunctive {a} (h : a.IsConjunctive) : IsLink a
  | node {p} (h : p.IsLink) : IsLink (.node p)
  | compile {p} (h : p.IsLink) : IsLink (.compile p)
  | disjunction {parts} (h : ∀ a ∈ parts, a.IsConjunctive) : IsLink (.join .or parts)
  | under {j a} (h : IsLink a) : IsLink (.join j [a])
  | chain {links} (h : ∀ a ∈ links, IsLink a) (joined : WellJoined links) : IsLink (.add links)

end Assembly

/-! ### What trees compile to -/

section Trees

/-- A tree compiles to related fragments for both targets. -/
def Predicate.CompilesToTwins (R : Sql → Filter → Prop) (p : Predicate) : Prop :=
  ∃ x y, (Dialect.relational "?").compile p = .ok x ∧ Dialect.document.compile p = .ok y ∧
    Twins R x y

variable {R R' : Sql → Filter → Prop} {children : List Predicate}

theorem Predicate.compilesToTwins_and (h : ∀ p ∈ children, p.CompilesToTwins R)
    (hjoin : ∀ s f ss fs, R s f → List.Forall₂ R ss fs →
      R' (Sql.join .and s ss) (Filter.join .and f fs)) : (and children).CompilesToTwins R' := by
  obtain ⟨xs, ys, hxs, hys, hall⟩ := exists_forall₂_pair h
  exact ⟨_, _, (Dialect.compile_and_eq_ok_iff _).2 ⟨xs, hxs, rfl⟩,
    (Dialect.compile_and_eq_ok_iff _).2 ⟨ys, hys, rfl⟩, twins_joinFragments hall hjoin⟩

theorem Predicate.compilesToTwins_or (h : ∀ p ∈ children, p.CompilesToTwins R)
    (hjoin : ∀ s f ss fs, R s f → List.Forall₂ R ss fs →
      R' (Sql.join .or s ss) (Filter.join .or f fs)) : (or children).CompilesToTwins R' := by
  obtain ⟨xs, ys, hxs, hys, hall⟩ := exists_forall₂_pair h
  exact ⟨_, _, (Dialect.compile_or_eq_ok_iff _).2 ⟨xs, hxs, rfl⟩,
    (Dialect.compile_or_eq_ok_iff _).2 ⟨ys, hys, rfl⟩, twins_joinFragments hall hjoin⟩

theorem Predicate.CompilesToTwins.imp {p : Predicate} (h : p.CompilesToTwins R)
    (hR : ∀ s f, R s f → R' s f) : p.CompilesToTwins R' := by
  obtain ⟨x, y, hx, hy, hxy⟩ := h
  exact ⟨x, y, hx, hy, hxy.imp hR⟩

theorem Predicate.compilesToTwins_leaf {c : Condition} {s : Sql} {f : Filter}
    (hs : Sql.ofCondition "?" c = .ok s) (hf : Filter.ofCondition c = some f) (hR : R s f) :
    (leaf c).CompilesToTwins R := by
  refine ⟨some ⟨s, none, .ofCondition c⟩, some ⟨f, none, .ofCondition c⟩, ?_, ?_, .some ⟨rfl, hR⟩⟩
  · simp only [Dialect.compile_leaf, Dialect.ofCondition, Dialect.relational, hs, Except.map,
      Option.map_some]
  · simp only [Dialect.compile_leaf, Dialect.ofCondition, Dialect.document, hf, Option.map_some]

/-- Conditions under conjunctions compile to a text and a filter that say the same. -/
theorem Predicate.compilesToTwins_of_isConjunctive {p : Predicate} (hshape : p.isConjunctive)
    (hp : ∀ c ∈ p.leaves, c.IsWellFormed) : p.CompilesToTwins TermTwins := by
  induction p using Predicate.inductionOn with
  | leaf c =>
    obtain ⟨s, f, hs, hf, htwins⟩ := termTwins_ofCondition (hp c (List.mem_singleton.2 rfl))
    exact compilesToTwins_leaf hs hf htwins
  | and children ih =>
    rw [isConjunctive, areConjunctive_iff] at hshape
    exact compilesToTwins_and (fun p hmem => ih p hmem (hshape p hmem) fun c hc =>
      hp c (mem_leavesOfAll.2 ⟨p, hmem, hc⟩)) fun s f ss fs => TermTwins.join_and
  | or children _ => cases hshape
  | group p _ => cases hshape

theorem Predicate.IsLink.compilesToTwins {p : Predicate} (h : p.IsLink)
    (hp : ∀ c ∈ p.leaves, c.IsWellFormed) : p.CompilesToTwins RowTwins := by
  induction h with
  | conjunctive h => exact (compilesToTwins_of_isConjunctive h hp).imp fun s f => TermTwins.row
  | disjunction h =>
    exact compilesToTwins_or (fun p hmem => compilesToTwins_of_isConjunctive (h p hmem) fun c hc =>
      hp c (mem_leavesOfAll.2 ⟨p, hmem, hc⟩)) fun s f ss fs => TermTwins.join_or
  | under_and _ ih =>
    obtain ⟨x, y, hx, hy, hxy⟩ := ih fun c hc => hp c (mem_leavesOfAll.2 ⟨_, .head _, hc⟩)
    exact ⟨_, _, (Dialect.compile_and_eq_ok_iff _).2 ⟨[x], .cons hx .nil, rfl⟩,
      (Dialect.compile_and_eq_ok_iff _).2 ⟨[y], .cons hy .nil, rfl⟩, twins_joinFragments_single hxy⟩
  | under_or _ ih =>
    obtain ⟨x, y, hx, hy, hxy⟩ := ih fun c hc => hp c (mem_leavesOfAll.2 ⟨_, .head _, hc⟩)
    exact ⟨_, _, (Dialect.compile_or_eq_ok_iff _).2 ⟨[x], .cons hx .nil, rfl⟩,
      (Dialect.compile_or_eq_ok_iff _).2 ⟨[y], .cons hy .nil, rfl⟩, twins_joinFragments_single hxy⟩

end Trees

/-! ### What assemblies yield -/

namespace Assembly

variable {placeholder : String}

theorem leaves_of_conditions (p : Predicate) :
    p.leaves.filter (Condition.counts .relational) = p.leaves :=
  List.filter_eq_self.2 fun _ _ => rfl

theorem mem_leavesOfAll {t : Target} {parts : List Assembly} {c : Condition} :
    c ∈ leavesOfAll t parts ↔ ∃ a ∈ parts, c ∈ a.leaves t := by
  rw [leavesOfAll_eq_flatMap, List.mem_flatMap]

/-- An assembly yields related fragments for both targets. -/
def YieldsTwins (placeholder : String) (R : Sql → Filter → Prop) (a : Assembly) : Prop :=
  ∃ x y, a.Yields ⟨.relational, "?"⟩ (.relational "?") x ∧
    a.Yields ⟨.document, placeholder⟩ .document y ∧ Twins R x y

section Steps

variable {R R' : Sql → Filter → Prop} {parts : List Assembly}

theorem YieldsTwins.imp {a : Assembly} (h : a.YieldsTwins placeholder R)
    (hR : ∀ s f, R s f → R' s f) : a.YieldsTwins placeholder R' := by
  obtain ⟨x, y, hx, hy, hxy⟩ := h
  exact ⟨x, y, hx, hy, hxy.imp hR⟩

theorem yieldsTwins_node {p : Predicate} (h : p.CompilesToTwins R) :
    (node p).YieldsTwins placeholder R := by
  obtain ⟨x, y, hx, hy, hxy⟩ := h
  exact ⟨x, y, yields_node.2 hx, yields_node.2 hy, hxy⟩

theorem yieldsTwins_compile {p : Predicate} (h : p.CompilesToTwins R) :
    (compile p).YieldsTwins placeholder R := by
  obtain ⟨x, y, hx, hy, hxy⟩ := h
  exact ⟨x, y, (yields_compile (Compiler.speaks_relational _)).2 hx,
    (yields_compile (Compiler.speaks_document _)).2 hy, hxy⟩

theorem yieldsTwins_join {j : Joiner} (h : ∀ a ∈ parts, a.YieldsTwins placeholder R)
    (hjoin : ∀ s f ss fs, R s f → List.Forall₂ R ss fs →
      R' (Sql.join j s ss) (Filter.join j f fs)) : (join j parts).YieldsTwins placeholder R' := by
  obtain ⟨xs, ys, hxs, hys, hall⟩ := exists_forall₂_pair h
  exact ⟨_, _, (yields_join (Compiler.speaks_relational _)).2 ⟨xs, hxs, rfl⟩,
    (yields_join (Compiler.speaks_document _)).2 ⟨ys, hys, rfl⟩, twins_joinFragments hall hjoin⟩

end Steps

theorem IsConjunctive.twins {a : Assembly} (h : a.IsConjunctive)
    (hleaves : ∀ c ∈ a.leaves .relational, c.IsWellFormed) :
    a.YieldsTwins placeholder TermTwins := by
  induction h with
  | empty =>
    exact ⟨none, none, (yields_empty (Compiler.speaks_relational _)).2 rfl,
      (yields_empty (Compiler.speaks_document _)).2 rfl, .none⟩
  | node h =>
    rw [leaves, leaves_of_conditions] at hleaves
    exact yieldsTwins_node (Predicate.compilesToTwins_of_isConjunctive h hleaves)
  | compile h =>
    rw [leaves, leaves_of_conditions] at hleaves
    exact yieldsTwins_compile (Predicate.compilesToTwins_of_isConjunctive h hleaves)
  | join _ ih =>
    exact yieldsTwins_join (fun a ha => ih a ha fun c hc =>
      hleaves c (mem_leavesOfAll.2 ⟨a, ha, hc⟩)) fun s f ss fs => TermTwins.join_and

/-! ### Chains -/

/-- An assembly yields something exactly if it has conditions. -/
theorem Yields.isSome {φ : Type} {c : Compiler} {d : Dialect φ}
    {query : Option (Fragment φ) → Query} (h : c.Speaks d query) {a : Assembly}
    {x : Option (Fragment φ)} (hx : a.Yields c d x) : x.isSome = !(a.leaves c.target).isEmpty := by
  have hsig := hx.signature h
  rw [Dialect.HasSignature] at hsig
  rw [← Option.isSome_map (f := Fragment.signature), hsig]
  cases a.leaves c.target <;> rfl

/-- The links of a chain that have conditions yield what is left of the chain, in order. -/
theorem forall₂_leading {links : List Assembly} {xs : List (Option (Fragment Sql))}
    (hxs : List.Forall₂ (Yields ⟨.relational, "?"⟩ (.relational "?")) links xs) :
    List.Forall₂ (fun a f => f.leading = a.leading)
      (links.filter fun a => !(a.leaves .relational).isEmpty) (xs.filterMap id) := by
  induction hxs with
  | nil => exact .nil
  | @cons a x links xs hx _ ih =>
    have hsome := hx.isSome (Compiler.speaks_relational _)
    have hleading := hx.leading (Compiler.speaks_relational _)
    rw [List.filter_cons, ← hsome, List.filterMap_cons]
    cases x with
    | none => exact ih
    | some f => exact .cons (hleading f rfl) ih

theorem WellJoined.leading {links : List Assembly} {xs : List (Option (Fragment Sql))}
    (h : WellJoined links)
    (hxs : List.Forall₂ (Yields ⟨.relational, "?"⟩ (.relational "?")) links xs) :
    ∀ f ∈ (xs.filterMap id).tail, f.leading.isSome := by
  have hall := forall₂_leading hxs
  rw [WellJoined] at h
  generalize links.filter _ = left at h hall
  generalize xs.filterMap id = fragments at hall ⊢
  cases hall with
  | nil => exact fun f hf => nomatch hf
  | cons _ hrest =>
    intro f hf
    obtain ⟨i, hi, rfl⟩ := List.mem_iff_getElem.1 hf
    have hlink := hrest.get (hrest.length_eq ▸ hi) hi
    exact hlink ▸ h _ (List.getElem_mem _)

/-- **A link yields a text and a filter that say the same.** -/
theorem IsLink.twins (placeholder : String) {a : Assembly} (h : a.IsLink)
    (hleaves : ∀ c ∈ a.leaves .relational, c.IsWellFormed) :
    a.YieldsTwins placeholder RowTwins := by
  induction h with
  | conjunctive h => exact (h.twins hleaves).imp fun s f => TermTwins.row
  | node h =>
    rw [leaves, leaves_of_conditions] at hleaves
    exact yieldsTwins_node (h.compilesToTwins hleaves)
  | compile h =>
    rw [leaves, leaves_of_conditions] at hleaves
    exact yieldsTwins_compile (h.compilesToTwins hleaves)
  | disjunction h =>
    exact yieldsTwins_join (fun a ha => (h a ha).twins fun c hc =>
      hleaves c (mem_leavesOfAll.2 ⟨a, ha, hc⟩)) fun s f ss fs => TermTwins.join_or
  | under _ ih =>
    obtain ⟨x, y, hx, hy, hxy⟩ := ih fun c hc => hleaves c (mem_leavesOfAll.2 ⟨_, .head _, hc⟩)
    exact ⟨_, _, (yields_join (Compiler.speaks_relational _)).2 ⟨[x], .cons hx .nil, rfl⟩,
      (yields_join (Compiler.speaks_document _)).2 ⟨[y], .cons hy .nil, rfl⟩,
      twins_joinFragments_single hxy⟩
  | chain _ joined ih =>
    obtain ⟨xs, ys, hxs, hys, hall⟩ := exists_forall₂_pair fun a ha =>
      ih a ha fun c hc => hleaves c (mem_leavesOfAll.2 ⟨a, ha, hc⟩)
    exact ⟨_, _, (yields_add (Compiler.speaks_relational _)).2 ⟨xs, hxs, rfl⟩,
      (yields_add (Compiler.speaks_document _)).2 ⟨ys, hys, rfl⟩,
      twins_addFragments hall (joined.leading hxs)⟩

/-- **The text and the filter of a chain hold at the same time.** Let every link of a chain consist
of conditions under conjunctions, or be a disjunction of such, a chain, or a join of a single link,
and let every link after the first one stand behind a joiner. The chain can be assembled for both
targets. Without conditions its text is empty and its filter object has no member. Otherwise its
text has exactly one reading, and under truth values that agree on the two forms of each condition
the formula that it is read as holds exactly if the filter object does. -/
theorem chain_holds_alike (links : List Assembly) (placeholder : String)
    (hlinks : ∀ a ∈ links, a.IsLink) (hjoined : WellJoined links)
    (hleaves : ∀ a ∈ links, ∀ c ∈ a.leaves .relational, c.IsWellFormed) :
    ∃ q q' text document,
      (add links).clause ⟨.relational, "?"⟩ = .ok (.compiled q) ∧ q.sql? = some text ∧
      (add links).clause ⟨.document, placeholder⟩ = .ok (.compiled q') ∧
      q'.document? = some document ∧
      ((∀ a ∈ links, a.leaves .relational = []) → text = "" ∧ document = .obj []) ∧
      ((∃ a ∈ links, a.leaves .relational ≠ []) → ∃ f, Sql.Reads .disjunction text q.parameters f ∧
        (∀ g, Sql.Reads .disjunction text q.parameters g → g = f) ∧
        ∀ v w, Filter.Agree v w → f.holds v = Filter.documentHolds w document) := by
  have hall : ∀ c ∈ (add links).leaves .relational, c.IsWellFormed := fun c hc =>
    let ⟨a, ha, hca⟩ := mem_leavesOfAll.1 hc
    hleaves a ha c hca
  obtain ⟨x, y, hx, hy, hxy⟩ := (IsLink.chain hlinks hjoined).twins placeholder hall
  have hclause := hx.clause_add (Compiler.speaks_relational _)
  have hclause' := hy.clause_add (Compiler.speaks_document _)
  have hsome := hx.isSome (Compiler.speaks_relational _)
  have hempty : (∀ a ∈ links, a.leaves .relational = []) ↔ (add links).leaves .relational = [] := by
    rw [leaves, leavesOfAll_eq_flatMap, List.flatMap_eq_nil_iff]
  cases hxy with
  | none =>
    refine ⟨_, _, _, _, hclause, rfl, hclause', rfl, fun _ => ⟨rfl, rfl⟩, ?_⟩
    rintro ⟨a, ha, hne⟩
    have hnil : (add links).leaves .relational = [] := by simpa using hsome
    exact absurd (hempty.2 hnil a ha) hne
  | some htwins =>
    refine ⟨_, _, _, _, hclause, rfl, hclause', rfl, fun hnil => ?_, fun _ => ?_⟩
    · rw [hempty.1 hnil] at hsome
      cases hsome
    · have hrow := htwins.2
      obtain ⟨f, hread, hholds⟩ := hrow.holds
      refine ⟨f, hread, fun g hg => hg.unique hread, fun v w hvw => ?_⟩
      rw [hholds v w hvw, Filter.documentHolds_toJson w hrow.isConjunctive]

/-- A condition, a conjunction behind a disjunctive joiner, and a chain behind a conjunctive one. -/
theorem chain_holds_alike_nested : ∃ links q q' text document f,
    links = [.node (.equal "a" (.str "1")),
      .join .or [.compile (.and [.equal "b" (.str "2"), .isIn "c" (.arr [.str "3"])])],
      .join .and [.add [.node (.isNull "d"), .join .or [.node (.like "e" (.str "%"))]]]] ∧
    (add links).clause ⟨.relational, "?"⟩ = .ok (.compiled q) ∧ q.sql? = some text ∧
    (add links).clause ⟨.document, "?"⟩ = .ok (.compiled q') ∧ q'.document? = some document ∧
    Sql.Reads .disjunction text q.parameters f ∧
    f.holds (fun field _ _ => field == "b") =
      Filter.documentHolds (fun field _ => field == "b") document := by
  have names : Sql.isFieldName "a" ∧ Sql.isFieldName "b" ∧ Sql.isFieldName "c" ∧
      Sql.isFieldName "d" ∧ Sql.isFieldName "e" := by decide +kernel
  have inner : (add [.node (.isNull "d"), .join .or [.node (.like "e" (.str "%"))]]).IsLink := by
    refine .chain ?_ (List.forall_mem_singleton.2 rfl)
    exact List.forall_mem_cons.2 ⟨.conjunctive (.node rfl),
      List.forall_mem_singleton.2 (.under (.conjunctive (.node rfl)))⟩
  obtain ⟨q, q', text, document, hq, htext, hq', hdocument, -, hread⟩ := chain_holds_alike
    [.node (.equal "a" (.str "1")),
      .join .or [.compile (.and [.equal "b" (.str "2"), .isIn "c" (.arr [.str "3"])])],
      .join .and [.add [.node (.isNull "d"), .join .or [.node (.like "e" (.str "%"))]]]] "?"
    (List.forall_mem_cons.2 ⟨.conjunctive (.node rfl), List.forall_mem_cons.2
      ⟨.under (.conjunctive (.compile rfl)), List.forall_mem_singleton.2 (.under inner)⟩⟩)
    (List.forall_mem_cons.2 ⟨rfl, List.forall_mem_singleton.2 rfl⟩)
    (by
      simp [leaves, leavesOfAll, Predicate.leaves, Predicate.leavesOfAll, Predicate.equal,
        Predicate.isIn, Predicate.isNull, Predicate.like, Predicate.compare,
        Condition.IsWellFormed, Condition.counts, Operator.takesSequence, names])
  obtain ⟨f, hf, -, hholds⟩ := hread ⟨_, .head _, List.cons_ne_nil _ _⟩
  exact ⟨_, q, q', text, document, f, rfl, hq, htext, hq', hdocument, hf,
    hholds _ _ fun c check _ => rfl⟩

end Assembly

end QueryCache
