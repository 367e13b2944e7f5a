import QueryCache.Proofs.Joined
import QueryCache.Query.Sql

/-!
# The grammar of condition texts

A condition text with `?` for bound values is read by the grammar

    disjunction = conjunction (' OR ' conjunction)*
    conjunction = atom (' AND ' atom)*
    atom        = test | '(' disjunction ')'

in which conjunction binds tighter than disjunction. A test is a field name, an operator and its
placeholders, and takes as many of the parameters as it has placeholders, from left to right.

## Main definitions

* `Sql.Formula` : what a text says about values of fields.
* `Sql.testText` : the text of a test.
* `Sql.Reads` : a text with its parameters has a reading as a formula.

## Main results

* `Sql.testText_append_inj` : a test ends where it ends, whatever follows it.
* `Sql.Reads.unique` : a text has at most one reading.
-/

namespace QueryCache

namespace Sql

/-! ### Formulas -/

/-- What a condition text says: tests of fields under conjunction and disjunction. -/
inductive Formula where
  /-- The field compares with the bound values. -/
  | test (field : String) (operator : Operator) (values : List Json)
  | both (f g : Formula)
  | either (f g : Formula)

/-- Truth values for comparisons of fields with bound values. -/
abbrev Assignment := String → Operator → List Json → Bool

/-- The truth value of a formula. -/
def Formula.holds (v : Assignment) : Formula → Bool
  | .test field operator values => v field operator values
  | .both f g => f.holds v && g.holds v
  | .either f g => f.holds v || g.holds v

/-! ### The texts of tests -/

/-- Lower case letters, digits and the underscore. -/
def isFieldChar (c : Char) : Bool := c.isLower || c.isDigit || c == '_'

/-- A name that a field may have: not empty, and of field characters alone. -/
def isFieldName (name : String) : Bool := name != "" && name.toList.all isFieldChar

/-- The number of values that an operator can bind. -/
def binds (operator : Operator) (n : Nat) : Bool :=
  if operator.isNullCheck then n == 0 else if operator.takesSequence then 0 < n else n == 1

/-- An operator up to its first placeholder, or up to its end if it binds nothing. -/
def operatorHead (operator : Operator) : String :=
  if operator.isNullCheck then symbol operator
  else if operator.takesSequence then symbol operator ++ " ("
  else symbol operator ++ " ?"

/-- What follows an operator's head: the placeholders of a list and the closing parenthesis. -/
def operatorTail (operator : Operator) (n : Nat) : String :=
  if operator.takesSequence then ",".intercalate (List.replicate n "?") ++ ")" else ""

/-- The text of a test with a number of placeholders. -/
def testText (field : String) (operator : Operator) (n : Nat) : String :=
  field ++ " " ++ operatorHead operator ++ operatorTail operator n

/-! ### Readings -/

/-- The three levels of the grammar. -/
inductive Level where
  | atom
  | conjunction
  | disjunction
deriving DecidableEq

/-- A text and its parameters can be read at a level of the grammar as a formula. -/
inductive Reads : Level → String → List Json → Formula → Prop
  | test {field operator values} (name : isFieldName field)
      (count : binds operator values.length) :
      Reads .atom (testText field operator values.length) values (.test field operator values)
  | parens {s ps f} (inner : Reads .disjunction s ps f) : Reads .atom ("(" ++ s ++ ")") ps f
  | atom {s ps f} (only : Reads .atom s ps f) : Reads .conjunction s ps f
  | and {s ps f t qs g} (first : Reads .atom s ps f) (rest : Reads .conjunction t qs g) :
      Reads .conjunction (s ++ " AND " ++ t) (ps ++ qs) (.both f g)
  | conjunction {s ps f} (only : Reads .conjunction s ps f) : Reads .disjunction s ps f
  | or {s ps f t qs g} (first : Reads .conjunction s ps f) (rest : Reads .disjunction t qs g) :
      Reads .disjunction (s ++ " OR " ++ t) (ps ++ qs) (.either f g)

/-! ### A test ends where it ends -/

theorem isFieldName_iff {name : String} :
    isFieldName name = true ↔ name ≠ "" ∧ ∀ c ∈ name.toList, isFieldChar c = true := by
  simp [isFieldName]

/-- A field name has no character that is not a field character. -/
theorem notMem_of_isFieldName {name : String} {c : Char} (h : isFieldName name = true)
    (hc : isFieldChar c = false) : c ∉ name.toList := fun hmem => by
  have := (isFieldName_iff.1 h).2 c hmem
  rw [hc] at this
  exact Bool.noConfusion this

/-- No operator's head begins with that of another one. -/
theorem operatorHead_prefix_inj {o o' : Operator}
    (h : (operatorHead o).toList <+: (operatorHead o').toList) : o = o' := by
  have all : ∀ o ∈ Operator.all, ∀ o' ∈ Operator.all,
      (operatorHead o).toList <+: (operatorHead o').toList → o = o' := by decide +kernel
  exact all o (Operator.mem_all o) o' (Operator.mem_all o') h

theorem operatorHead_append_inj {o o' : Operator} {r r' : List Char}
    (h : (operatorHead o).toList ++ r = (operatorHead o').toList ++ r') : o = o' ∧ r = r' := by
  have heads : o = o' := by
    rcases List.prefix_or_prefix_of_prefix (List.prefix_append (operatorHead o).toList r)
      (h ▸ List.prefix_append (operatorHead o').toList r') with hp | hp
    · exact operatorHead_prefix_inj hp
    · exact (operatorHead_prefix_inj hp).symm
  subst heads
  exact ⟨rfl, List.append_cancel_left h⟩

/-- The placeholders of a list, as characters. -/
theorem toList_placeholders (n : Nat) :
    (",".intercalate (List.replicate (n + 1) "?")).toList =
      '?' :: (List.replicate n [',', '?']).flatten := by
  induction n with
  | zero => rfl
  | succ n ih =>
    rw [List.replicate_succ, List.replicate_succ, String.intercalate_cons_cons,
      ← List.replicate_succ, String.toList_append, String.toList_append, ih]
    simp [List.replicate_succ]

theorem length_placeholders (n : Nat) :
    (",".intercalate (List.replicate (n + 1) "?")).toList.length = 2 * n + 1 := by
  rw [toList_placeholders]
  simp [Nat.mul_comm]

theorem notMem_placeholders (n : Nat) :
    ')' ∉ (",".intercalate (List.replicate (n + 1) "?")).toList := by
  rw [toList_placeholders]
  simp

theorem operatorTail_append_inj {o : Operator} {n n' : Nat} {r r' : List Char}
    (hn : binds o n) (hn' : binds o n')
    (h : (operatorTail o n).toList ++ r = (operatorTail o n').toList ++ r') : n = n' := by
  by_cases hnull : o.isNullCheck = true
  · have h0 : n = 0 ∧ n' = 0 := by simpa [binds, hnull] using And.intro hn hn'
    rw [h0.1, h0.2]
  by_cases hseq : o.takesSequence = true
  · have hpos : 0 < n ∧ 0 < n' := by simpa [binds, hnull, hseq] using And.intro hn hn'
    obtain ⟨m, rfl⟩ := Nat.exists_eq_add_of_lt hpos.1
    obtain ⟨m', rfl⟩ := Nat.exists_eq_add_of_lt hpos.2
    simp only [Nat.zero_add, operatorTail, hseq, if_true, String.toList_append,
      List.append_assoc] at h
    have hmarks := (append_mark_inj _ _ (notMem_placeholders m) (notMem_placeholders m') h).1
    have hlen := congrArg List.length hmarks
    rw [length_placeholders, length_placeholders] at hlen
    omega
  · have h1 : n = 1 ∧ n' = 1 := by simpa [binds, hnull, hseq] using And.intro hn hn'
    rw [h1.1, h1.2]

/-- **A test ends where it ends.** A text that begins with two tests begins with one: they have the
same field, operator and number of placeholders. -/
theorem testText_append_inj {x x' : String} {o o' : Operator} {n n' : Nat} {r r' : List Char}
    (hx : isFieldName x) (hx' : isFieldName x') (hn : binds o n) (hn' : binds o' n')
    (h : (testText x o n).toList ++ r = (testText x' o' n').toList ++ r') :
    x = x' ∧ o = o' ∧ n = n' := by
  have space : isFieldChar ' ' = false := by decide
  simp only [testText, String.toList_append, List.append_assoc] at h
  obtain ⟨hfield, htail⟩ := append_mark_inj x.toList x'.toList (notMem_of_isFieldName hx space)
    (notMem_of_isFieldName hx' space) h
  obtain ⟨rfl, hrest⟩ := operatorHead_append_inj htail
  exact ⟨String.toList_inj.1 hfield, rfl, operatorTail_append_inj hn hn' hrest⟩

/-- A test does not begin with a parenthesis. -/
theorem testText_append_ne_parens {x s : String} {o : Operator} {n : Nat} {r r' : List Char}
    (hx : isFieldName x) : (testText x o n).toList ++ r ≠ ("(" ++ s ++ ")").toList ++ r' := by
  obtain ⟨hne, hall⟩ := isFieldName_iff.1 hx
  obtain ⟨c, cs, hcs⟩ := List.exists_cons_of_ne_nil (mt String.toList_eq_nil_iff.1 hne)
  intro h
  have hc : c = '(' := by
    simp only [testText, String.toList_append, hcs, List.cons_append] at h
    exact (List.cons.inj h).1
  have hchar := hall c (hcs ▸ List.mem_cons_self)
  rw [hc] at hchar
  exact absurd hchar (by decide)

/-! ### Readings are unique -/

/-- What can follow a text of a level: no joiner that the level would go on with. -/
def Level.Ends : Level → List Char → Prop
  | .atom, _ => True
  | .conjunction, rest => ¬ " AND ".toList <+: rest
  | .disjunction, rest => ¬ " AND ".toList <+: rest ∧ ¬ " OR ".toList <+: rest

theorem Level.ends_nil (l : Level) : l.Ends [] := by
  cases l <;> simp [Level.Ends]

theorem Level.ends_closing (l : Level) (rest : List Char) : l.Ends (')' :: rest) := by
  cases l <;> simp [Level.Ends]

/-- A conjunction ends before a disjunctive joiner. -/
theorem Level.conjunction_ends_or (rest : List Char) :
    Level.conjunction.Ends (" OR ".toList ++ rest) := by
  simp [Level.Ends]

/-- **Two readings at the beginning of one text agree.** If each of two texts can be read at one
level, and both continue to the same text and the same parameters with something that the level
cannot go on with, then texts, parameters and formulas are the same. -/
theorem Reads.append_inj {l : Level} {s t : String} {ps qs : List Json} {f g : Formula}
    (hs : Reads l s ps f) (ht : Reads l t qs g) {r r' : List Char} {ps' qs' : List Json}
    (htext : s.toList ++ r = t.toList ++ r') (hparams : ps ++ ps' = qs ++ qs')
    (hr : l.Ends r) (hr' : l.Ends r') : s = t ∧ ps = qs ∧ f = g := by
  -- on the first reading; the level fixes the rules that the second one can come from
  induction hs generalizing t qs g r r' ps' qs' with
  | test name count =>
    cases ht with
    | test name' count' =>
      obtain ⟨rfl, rfl, hlen⟩ := testText_append_inj name name' count count' htext
      obtain ⟨rfl, -⟩ := List.append_inj hparams hlen
      exact ⟨rfl, rfl, rfl⟩
    | parens inner' => exact absurd htext (testText_append_ne_parens name)
  | parens inner ih =>
    cases ht with
    | test name' count' => exact absurd htext.symm (testText_append_ne_parens name')
    | parens inner' =>
      simp only [String.toList_append, List.append_assoc, List.append_cancel_left_eq] at htext
      obtain ⟨rfl, rfl, rfl⟩ := ih inner' htext hparams (Level.ends_closing _ _)
        (Level.ends_closing _ _)
      exact ⟨rfl, rfl, rfl⟩
  | atom only ih =>
    cases ht with
    | atom only' => exact ih only' htext hparams trivial trivial
    | and first' rest' =>
      simp only [String.toList_append, List.append_assoc] at htext hparams
      obtain ⟨rfl, -, -⟩ := ih first' htext hparams trivial trivial
      exact absurd (List.append_cancel_left htext ▸ List.prefix_append _ _) hr
  | and first rest ih ih' =>
    simp only [String.toList_append, List.append_assoc] at htext hparams
    cases ht with
    | atom only' =>
      obtain ⟨rfl, -, -⟩ := ih only' htext hparams trivial trivial
      exact absurd ((List.append_cancel_left htext).symm ▸ List.prefix_append _ _) hr'
    | and first' rest' =>
      simp only [String.toList_append, List.append_assoc] at htext hparams
      obtain ⟨rfl, rfl, rfl⟩ := ih first' htext hparams trivial trivial
      obtain ⟨rfl, rfl, rfl⟩ := ih' rest'
        (List.append_cancel_left (List.append_cancel_left htext))
        (List.append_cancel_left hparams) hr hr'
      exact ⟨rfl, rfl, rfl⟩
  | conjunction only ih =>
    cases ht with
    | conjunction only' => exact ih only' htext hparams hr.1 hr'.1
    | or first' rest' =>
      simp only [String.toList_append, List.append_assoc] at htext hparams
      obtain ⟨rfl, -, -⟩ := ih first' htext hparams hr.1 (Level.conjunction_ends_or _)
      exact absurd (List.append_cancel_left htext ▸ List.prefix_append _ _) hr.2
  | or first rest ih ih' =>
    simp only [String.toList_append, List.append_assoc] at htext hparams
    cases ht with
    | conjunction only' =>
      obtain ⟨rfl, -, -⟩ := ih only' htext hparams (Level.conjunction_ends_or _) hr'.1
      exact absurd ((List.append_cancel_left htext).symm ▸ List.prefix_append _ _) hr'.2
    | or first' rest' =>
      simp only [String.toList_append, List.append_assoc] at htext hparams
      obtain ⟨rfl, rfl, rfl⟩ := ih first' htext hparams (Level.conjunction_ends_or _)
        (Level.conjunction_ends_or _)
      obtain ⟨rfl, rfl, rfl⟩ := ih' rest'
        (List.append_cancel_left (List.append_cancel_left htext))
        (List.append_cancel_left hparams) hr hr'
      exact ⟨rfl, rfl, rfl⟩

/-- **A text has at most one reading.** -/
theorem Reads.unique {l : Level} {s : String} {ps : List Json} {f g : Formula}
    (hf : Reads l s ps f) (hg : Reads l s ps g) : f = g := by
  have htext : s.toList ++ [] = s.toList ++ [] := rfl
  have hparams : ps ++ [] = ps ++ [] := rfl
  exact (hf.append_inj hg htext hparams l.ends_nil l.ends_nil).2.2

end Sql

end QueryCache
