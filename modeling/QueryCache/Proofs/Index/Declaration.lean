import Mathlib.Data.List.Basic
import QueryCache.Proofs.Index
import QueryCache.Proofs.Text.Blank

/-!
# How index definitions are written

A definition is a list of parts with commas between them. A part that is blank says nothing, and any
other part is the name of a field with blanks around it. So a definition declares one list of names,
and it is parsed if this list is neither empty nor too long. Definitions that declare the same names
have the same fields, however they are laid out.

## Main definitions

* `CompositeIndex.Lists` : the names that parts stand for.
* `CompositeIndex.Declares` : the names that a definition declares.

## Main results

* `CompositeIndex.declares_iff` : each definition declares one list of names.
* `CompositeIndex.parse_declarations` : what is parsed, and to which fields.
-/

namespace QueryCache.CompositeIndex

variable {maxIndexes maxFields : Nat} {definition : String} {names : List String}
  {parts : List (List Char)} {index : CompositeIndex} {e : IndexError}

/-! ### Names between commas -/

/-- The names that parts stand for. A blank part stands for none, and a name may have blanks around
it. -/
inductive Lists : List (List Char) → List String → Prop
  | nil : Lists [] []
  | blank {part : List Char} {parts names} (nothing : AllBlank part) (rest : Lists parts names) :
      Lists (part :: parts) names
  | name {part : List Char} {name : String} {parts names} (named : name ≠ "")
      (trimmed : Trimmed name.toList) (padded : Padded name.toList part)
      (rest : Lists parts names) : Lists (part :: parts) (name :: names)

/-- The names that a definition declares, between commas. -/
def Declares (definition : String) (names : List String) : Prop :=
  ∃ parts, parts ≠ [] ∧ (∀ part ∈ parts, ',' ∉ part) ∧
    definition.toList = [','].intercalate parts ∧ Lists parts names

/-- A part stands for what trimming leaves of it, if anything is left. -/
theorem lists_iff : Lists parts names ↔
    ((parts.map trimBlankChars).filter fun part => !part.isEmpty).map String.ofList = names := by
  constructor
  · intro h
    induction h with
    | nil => rfl
    | blank nothing rest ih =>
      have htrim := trimBlankChars_eq_iff.2 ⟨trimmed_nil, padded_nil_iff.2 nothing⟩
      rw [List.map_cons, htrim]
      exact ih
    | name named trimmed padded rest ih =>
      have htrim := trimBlankChars_eq_iff.2 ⟨trimmed, padded⟩
      rw [List.map_cons, htrim, List.filter_cons_of_pos (by simpa using named), List.map_cons,
        String.ofList_toList, ih]
  · rintro rfl
    induction parts with
    | nil => exact .nil
    | cons part parts ih =>
      obtain ⟨htrimmed, hpadded⟩ := trimBlankChars_eq_iff.1 (rfl : trimBlankChars part = _)
      by_cases hpart : trimBlankChars part = []
      · rw [List.map_cons, hpart]
        exact .blank (padded_nil_iff.1 (hpart ▸ hpadded)) ih
      · rw [List.map_cons, List.filter_cons_of_pos (by simpa using hpart), List.map_cons]
        refine .name (fun hempty => hpart ?_) ?_ ?_ ih
        · simpa using congrArg String.toList hempty
        · rwa [String.toList_ofList]
        · rwa [String.toList_ofList]

theorem splitCommas_eq_splitOn (text : List Char) : splitCommas text = text.splitOn ',' := by
  induction text with
  | nil => rfl
  | cons c rest ih =>
    rw [splitCommas, ih, List.splitOn, List.splitOn, List.splitOnP_cons_eq_if_modifyHead]
    by_cases hc : c = ','
    · simp [hc]
    · rw [if_neg hc, if_neg (by simpa using hc)]
      cases hrest : rest.splitOnP (· == ',') with
      | nil => exact (List.splitOnP_ne_nil _ _ hrest).elim
      | cons part parts => rfl

theorem comma_notMem_of_splitCommas {text : List Char} :
    ∀ part ∈ splitCommas text, ',' ∉ part := by
  induction text with
  | nil => simp [splitCommas]
  | cons c rest ih =>
    rw [splitCommas]
    split
    · exact List.forall_mem_cons.2 ⟨nofun, ih⟩
    next hc =>
      split
      · simpa using Ne.symm hc
      next part parts hrest =>
        rw [hrest] at ih
        obtain ⟨hpart, hparts⟩ := List.forall_mem_cons.1 ih
        refine List.forall_mem_cons.2 ⟨fun hmem => ?_, hparts⟩
        exact (List.mem_cons.1 hmem).elim (fun heq => hc heq.symm) hpart

/-- A text has one list of parts between its commas. -/
theorem splitCommas_eq_iff {text : List Char} : splitCommas text = parts ↔
    parts ≠ [] ∧ (∀ part ∈ parts, ',' ∉ part) ∧ text = [','].intercalate parts := by
  constructor
  · rintro rfl
    refine ⟨?_, comma_notMem_of_splitCommas, ?_⟩
    · rw [splitCommas_eq_splitOn]
      exact List.splitOnP_ne_nil _ _
    · rw [splitCommas_eq_splitOn, List.intercalate_splitOn]
  · rintro ⟨hne, hfree, rfl⟩
    rw [splitCommas_eq_splitOn]
    exact List.splitOn_intercalate ',' hfree hne

/-- **Each definition declares one list of names**, those of its fields. -/
theorem declares_iff : Declares definition names ↔ fieldNames definition = names := by
  rw [fieldNames, ← lists_iff]
  constructor
  · rintro ⟨parts, hne, hfree, htext, hlists⟩
    rwa [splitCommas_eq_iff.2 ⟨hne, hfree, htext⟩]
  · intro hlists
    obtain ⟨hne, hfree, htext⟩ := splitCommas_eq_iff.1 (rfl : splitCommas definition.toList = _)
    exact ⟨_, hne, hfree, htext, hlists⟩

/-- A name is not empty, and has no blanks around it. -/
theorem Lists.trimmed (h : Lists parts names) :
    ∀ name ∈ names, name ≠ "" ∧ Trimmed name.toList := by
  induction h with
  | nil => exact nofun
  | blank nothing rest ih => exact ih
  | name named trimmed padded rest ih => exact List.forall_mem_cons.2 ⟨⟨named, trimmed⟩, ih⟩

theorem comma_notMem_of_allBlank {part : List Char} (h : AllBlank part) : ',' ∉ part :=
  fun hmem => absurd (h ',' hmem) (by decide)

/-- There are commas in names only if there are some in the parts. -/
theorem Lists.comma_iff (h : Lists parts names) :
    (∀ part ∈ parts, ',' ∉ part) ↔ ∀ name ∈ names, ',' ∉ name.toList := by
  induction h with
  | nil => exact iff_of_true nofun nofun
  | blank nothing rest ih =>
    rw [List.forall_mem_cons, ih]
    exact and_iff_right (comma_notMem_of_allBlank nothing)
  | name named trimmed padded rest ih =>
    obtain ⟨before, after, hbefore, hafter, rfl⟩ := padded
    rw [List.forall_mem_cons, List.forall_mem_cons, ih]
    refine and_congr_left fun _ => not_congr ?_
    simp [comma_notMem_of_allBlank hbefore, comma_notMem_of_allBlank hafter]

/-- Names that are declared are not empty, and have no commas in them and no blanks around them. -/
theorem Declares.trimmed (h : Declares definition names) :
    ∀ name ∈ names, name ≠ "" ∧ ',' ∉ name.toList ∧ Trimmed name.toList := by
  obtain ⟨parts, -, hfree, -, hlists⟩ := h
  intro name hname
  obtain ⟨hnamed, htrimmed⟩ := hlists.trimmed name hname
  exact ⟨hnamed, hlists.comma_iff.1 hfree name hname, htrimmed⟩

/-- Parts that stand for names make up a definition that declares these names. -/
theorem Lists.declares (h : Lists parts names) (hnames : names ≠ [])
    (hfree : ∀ name ∈ names, ',' ∉ name.toList) :
    Declares (String.ofList ([','].intercalate parts)) names := by
  refine ⟨parts, ?_, h.comma_iff.2 hfree, String.toList_ofList, h⟩
  rintro rfl
  cases h
  exact hnames rfl

/-! ### Parsing -/

/-- A definition that declares a field or more, and not too many, is parsed to these fields. -/
theorem parse_eq_ok_iff_of_declares (h : Declares definition names) :
    parse definition maxFields = .ok index ↔
      (1 ≤ names.length ∧ names.length ≤ maxFields) ∧ index = ⟨definition, names⟩ := by
  rw [parse_eq_ok_iff, Fits, declares_iff.1 h, Nat.one_le_iff_ne_zero, Ne, Ne,
    List.length_eq_zero_iff]

theorem parse_eq_error_iff_of_declares (h : Declares definition names) :
    parse definition maxFields = .error e ↔
      (names.length = 0 ∧ e = .emptyDefinition definition) ∨
        (maxFields < names.length ∧
          e = .tooManyCompositeFields definition names.length maxFields) := by
  have hnames := declares_iff.1 h
  rw [parse_eq_error_iff]
  constructor
  · rintro (hnone | hmany)
    · exact .inl ⟨by rw [← hnames, hnone, List.length_nil], rfl⟩
    · rw [hnames] at hmany ⊢
      exact .inr ⟨hmany, rfl⟩
  · rintro (⟨hnone, rfl⟩ | ⟨hmany, rfl⟩)
    · exact .noField (hnames.trans (List.length_eq_zero_iff.1 hnone))
    · subst hnames
      exact .tooManyFields hmany

/-- The place of a record depends on the fields alone. -/
theorem valuesKey?_congr {other : CompositeIndex} (h : other.fields = index.fields)
    (record : Record) : other.valuesKey? record = index.valuesKey? record := by
  rw [valuesKey?, valuesKey?, h]

/-- **What index definitions say.** A definition declares one list of names, which are neither empty
nor have commas in them or blanks around them. It is parsed exactly if there is a name and there are
not more than allowed, and then its fields are these names. If there is none, then this is the
error, whatever is allowed.

A definition may be laid out in another way, with blanks around the names and with blank parts
between the commas: it has the same fields, and each record has the same place under it.

Several definitions are parsed exactly if there are not too many of them and each is parsed. If
there are too many, none of them is looked at; otherwise the first one that is not parsed decides.
-/
theorem parse_declarations (maxFields : Nat) :
    (∀ definition, ∃ names, (∀ others, Declares definition others ↔ others = names) ∧
      (∀ name ∈ names, name ≠ "" ∧ ',' ∉ name.toList ∧ Trimmed name.toList) ∧
      (∀ index, parse definition maxFields = .ok index ↔
        (1 ≤ names.length ∧ names.length ≤ maxFields) ∧ index = ⟨definition, names⟩) ∧
      (names.length = 0 → parse definition maxFields = .error (.emptyDefinition definition)) ∧
      (maxFields < names.length → parse definition maxFields =
        .error (.tooManyCompositeFields definition names.length maxFields))) ∧
    (∀ definition index parts, parse definition maxFields = .ok index →
      Lists parts index.fields →
        ∃ index', parse (String.ofList ([','].intercalate parts)) maxFields = .ok index' ∧
          index'.fields = index.fields ∧
          ∀ record, index'.valuesKey? record = index.valuesKey? record) ∧
    ∀ maxIndexes definitions,
      (∀ indexes, parseAll definitions maxIndexes maxFields = .ok indexes ↔
        definitions.length ≤ maxIndexes ∧
          List.Forall₂ (fun definition index => parse definition maxFields = .ok index)
            definitions indexes) ∧
      (maxIndexes < definitions.length → parseAll definitions maxIndexes maxFields =
        .error (.tooManyIndexes definitions.length maxIndexes)) ∧
      (definitions.length ≤ maxIndexes → ∀ e,
        parseAll definitions maxIndexes maxFields = .error e ↔
          ∃ before definition after, definitions = before ++ definition :: after ∧
            (∀ earlier ∈ before, ∃ index, parse earlier maxFields = .ok index) ∧
            parse definition maxFields = .error e) := by
  refine ⟨fun definition => ?_, fun definition index parts hparse hlists => ?_,
    fun maxIndexes definitions => ⟨fun indexes => ?_, fun hmany => ?_, fun hnumber e => ?_⟩⟩
  · have hdeclares : Declares definition (fieldNames definition) := declares_iff.2 rfl
    refine ⟨fieldNames definition, fun others => declares_iff.trans eq_comm, hdeclares.trimmed,
      fun index => parse_eq_ok_iff_of_declares hdeclares, fun hnone => ?_, fun hmany => ?_⟩
    · exact (parse_eq_error_iff_of_declares hdeclares).2 (.inl ⟨hnone, rfl⟩)
    · exact (parse_eq_error_iff_of_declares hdeclares).2 (.inr ⟨hmany, rfl⟩)
  · have hdeclares : Declares definition (fieldNames definition) := declares_iff.2 rfl
    obtain ⟨⟨hsome, hnumber⟩, rfl⟩ := (parse_eq_ok_iff_of_declares hdeclares).1 hparse
    have hlaidOut := hlists.declares (List.ne_nil_of_length_pos hsome)
      fun name hname => (hdeclares.trimmed name hname).2.1
    exact ⟨_, (parse_eq_ok_iff_of_declares hlaidOut).2 ⟨⟨hsome, hnumber⟩, rfl⟩, rfl,
      fun record => valuesKey?_congr rfl record⟩
  · rw [parseAll]
    split
    next hmany => exact iff_of_false (by simp) fun h => Nat.not_le_of_lt hmany h.1
    next hnumber => rw [mapM_eq_ok_iff, and_iff_right (Nat.not_lt.1 hnumber)]
  · rw [parseAll, if_pos hmany]
  · rw [parseAll, if_neg (Nat.not_lt.2 hnumber), mapM_eq_error_iff]

/-- A definition of two fields, written without blanks and with an ideographic space, a tab and a
comma too many. -/
theorem parse_declarations_blanks :
    parse "email,password" 2 = .ok ⟨"email,password", ["email", "password"]⟩ ∧
      ∃ index, parse "\u3000email,,password\t," 2 = .ok index ∧
        index.fields = ["email", "password"] := by
  have hparse : parse "email,password" 2 = .ok ⟨"email,password", ["email", "password"]⟩ := by
    decide +kernel
  have hlists :
      Lists ["\u3000email".toList, [], "password\t".toList, []] ["email", "password"] := by
    refine .name (by decide) ⟨?_, ?_⟩ ⟨['\u3000'], [], ?_, nofun, rfl⟩ (.blank nofun
      (.name (by decide) ⟨?_, ?_⟩ ⟨[], ['\t'], nofun, ?_, rfl⟩ (.blank nofun .nil)))
    all_goals simp [AllBlank, isBlank]
  obtain ⟨-, hlayout, -⟩ := parse_declarations 2
  obtain ⟨index, hindex, hfields, -⟩ := hlayout _ _ _ hparse hlists
  exact ⟨hparse, index, hindex, hfields⟩

end QueryCache.CompositeIndex
