import Mathlib
import QueryCache.Predicate.Serialized
import QueryCache.Proofs.Predicate.Truth

/-!
# Predicates are read back

A tree is written in one way and may be laid out in others: a condition as an array or with further
members, an operator as an object. All forms of one tree are read as that tree, and a value that is
read at all is a form of what is read. The written form is one of them.

Values in a tree take no part in this. Whatever they are, they are written and read as they are,
also if they look like trees themselves.

## Main definitions

* `Operator.Form`, `Condition.Form`, `Predicate.Form` : the forms of operators, conditions and
  trees.
* `Predicate.Agree` : trees that are alike, with values that are the same.

## Main results

* `Predicate.ofJson?_eq_some_iff` : what is read from a value.
* `Predicate.same_iff` : when written trees are the same.
* `Predicate.serialization` : trees are read back, and only one tree is written in one way.
-/

namespace QueryCache

/-! ### Operators -/

/-- The forms of an operator: its name, or an object with the name as its only key and null as its
value. -/
inductive Operator.Form (operator : Operator) : Json → Prop
  | name : Form operator (.str operator.name)
  | object : Form operator (.obj [(operator.name, .null)])

theorem Operator.ofName?_eq_some_iff {name : String} {operator : Operator} :
    ofName? name = some operator ↔ name = operator.name := by
  constructor
  · intro h
    have hfound : all.find? (fun operator => operator.name == name) = some operator := h
    have hname := List.find?_some (p := fun operator : Operator => operator.name == name) hfound
    exact (beq_iff_eq.1 hname).symm
  · rintro rfl
    exact ofName?_name operator

theorem Operator.name_inj {a b : Operator} : a.name = b.name ↔ a = b := by
  rw [← ofName?_eq_some_iff, ofName?_name, Option.some.injEq]

theorem Operator.ofJson?_eq_some_iff {form : Json} {operator : Operator} :
    ofJson? form = some operator ↔ operator.Form form := by
  constructor
  · intro h
    unfold ofJson? at h
    split at h
    · obtain rfl := ofName?_eq_some_iff.1 h
      exact .name
    · obtain rfl := ofName?_eq_some_iff.1 h
      exact .object
    · cases h
  · rintro (- | -)
    · exact ofName?_name operator
    · exact ofName?_name operator

/-! ### Conditions -/

/-- The forms of a condition: an object with its three parts among the members, or the array of the
parts. -/
inductive Condition.Form (c : Condition) : Json → Prop
  | object {members : List (String × Json)} {form : Json}
      (field : members.lookup "field" = some (.str c.field))
      (operator : members.lookup "operator" = some form) (hform : c.operator.Form form)
      (value : members.lookup "value" = some c.value) : Form c (.obj members)
  | array {form : Json} (hform : c.operator.Form form) :
      Form c (.arr [.str c.field, form, c.value])

theorem Condition.ofParts?_eq_some_iff {field operator value : Json} {c : Condition} :
    ofParts? field operator value = some c ↔
      field = .str c.field ∧ c.operator.Form operator ∧ value = c.value := by
  constructor
  · intro h
    unfold ofParts? at h
    split at h
    · obtain ⟨op, hop, rfl⟩ := Option.map_eq_some_iff.1 h
      exact ⟨rfl, Operator.ofJson?_eq_some_iff.1 hop, rfl⟩
    · cases h
  · rintro ⟨rfl, hform, rfl⟩
    rw [ofParts?, Operator.ofJson?_eq_some_iff.2 hform]
    rfl

theorem Condition.ofJson?_eq_some_iff {form : Json} {c : Condition} :
    ofJson? form = some c ↔ c.Form form := by
  constructor
  · intro h
    unfold ofJson? at h
    split at h
    · obtain ⟨field, hfield, h⟩ := Option.bind_eq_some_iff.1 h
      obtain ⟨operator, hoperator, h⟩ := Option.bind_eq_some_iff.1 h
      obtain ⟨value, hvalue, h⟩ := Option.bind_eq_some_iff.1 h
      obtain ⟨rfl, hform, rfl⟩ := ofParts?_eq_some_iff.1 h
      exact .object hfield hoperator hform hvalue
    · obtain ⟨rfl, hform, rfl⟩ := ofParts?_eq_some_iff.1 h
      exact .array hform
    · cases h
  · rintro (⟨hfield, hoperator, hform, hvalue⟩ | hform)
    · have hparts := ofParts?_eq_some_iff.2 ⟨rfl, hform, rfl⟩
      simp only [ofJson?, hfield, hoperator, hvalue, Option.bind_eq_bind, Option.bind_some, hparts]
    · exact ofParts?_eq_some_iff.2 ⟨rfl, hform, rfl⟩

/-- The written form of a condition is one of its forms. -/
theorem Condition.form_toJson (c : Condition) : c.Form c.toJson :=
  .object rfl rfl .name rfl

namespace Predicate

variable {p q : Predicate} {ps qs : List Predicate} {form : Json} {forms : List Json}

/-! ### Trees -/

/-- The forms of a tree: an object with one key for the kind of node, and under it a form of the
condition or the forms of the children. -/
inductive Form : Predicate → Json → Prop
  | leaf {c form} (h : c.Form form) : Form (.leaf c) (.obj [("leaf", form)])
  | and {children forms} (h : List.Forall₂ Form children forms) :
      Form (.and children) (.obj [("and", .arr forms)])
  | or {children forms} (h : List.Forall₂ Form children forms) :
      Form (.or children) (.obj [("or", .arr forms)])
  | group {inner form} (h : Form inner form) : Form (.group inner) (.obj [("group", form)])

/-- How a tree is read, by the kind of its node. -/
theorem ofJson?_cases : ofJson? form = some p ↔
    (∃ inner c, form = .obj [("leaf", inner)] ∧ p = .leaf c ∧ Condition.ofJson? inner = some c) ∨
    (∃ forms ps, form = .obj [("and", .arr forms)] ∧ p = .and ps ∧ ofJsonAll? forms = some ps) ∨
    (∃ forms ps, form = .obj [("or", .arr forms)] ∧ p = .or ps ∧ ofJsonAll? forms = some ps) ∨
    ∃ inner q, form = .obj [("group", inner)] ∧ p = .group q ∧ ofJson? inner = some q := by
  constructor
  · intro h
    rw [ofJson?.eq_def] at h
    split at h
    · obtain ⟨c, hc, rfl⟩ := Option.map_eq_some_iff.1 h
      exact .inl ⟨_, c, rfl, rfl, hc⟩
    · obtain ⟨ps, hps, rfl⟩ := Option.map_eq_some_iff.1 h
      exact .inr (.inl ⟨_, ps, rfl, rfl, hps⟩)
    · obtain ⟨ps, hps, rfl⟩ := Option.map_eq_some_iff.1 h
      exact .inr (.inr (.inl ⟨_, ps, rfl, rfl, hps⟩))
    · obtain ⟨q, hq, rfl⟩ := Option.map_eq_some_iff.1 h
      exact .inr (.inr (.inr ⟨_, q, rfl, rfl, hq⟩))
    · cases h
  · rintro (⟨inner, c, rfl, rfl, h⟩ | ⟨forms, ps, rfl, rfl, h⟩ | ⟨forms, ps, rfl, rfl, h⟩ |
      ⟨inner, q, rfl, rfl, h⟩)
    all_goals rw [ofJson?.eq_def]; simp [h]

theorem ofJsonAll?_eq_some_iff :
    ofJsonAll? forms = some ps ↔ List.Forall₂ (fun p form => ofJson? form = some p) ps forms := by
  induction forms generalizing ps with
  | nil =>
    rw [List.forall₂_nil_right_iff, ofJsonAll?, Option.some.injEq, eq_comm]
  | cons form forms ih =>
    rw [ofJsonAll?]
    constructor
    · intro h
      split at h
      · next child children hchild hchildren =>
        cases h
        exact .cons hchild (ih.1 hchildren)
      · cases h
    · rintro (- | ⟨hchild, hchildren⟩)
      rw [hchild, ih.2 hchildren]

theorem forall₂_iff_of_mem {α β : Type} {R S : α → β → Prop} {as : List α} {bs : List β}
    (h : ∀ a ∈ as, ∀ b, R a b ↔ S a b) : List.Forall₂ R as bs ↔ List.Forall₂ S as bs := by
  induction as generalizing bs with
  | nil => rw [List.forall₂_nil_left_iff, List.forall₂_nil_left_iff]
  | cons a as ih =>
    obtain ⟨ha, has⟩ := List.forall_mem_cons.1 h
    cases bs with
    | nil => exact iff_of_false nofun nofun
    | cons b bs => rw [List.forall₂_cons, List.forall₂_cons, ha, ih has]

theorem ofJsonAll?_eq_some_iff_form
    (h : ∀ p ∈ ps, ∀ {form : Json}, ofJson? form = some p ↔ p.Form form) :
    ofJsonAll? forms = some ps ↔ List.Forall₂ Form ps forms := by
  rw [ofJsonAll?_eq_some_iff]
  exact forall₂_iff_of_mem fun p hp form => h p hp

/-- **What is read from a value**: the tree that the value is a form of. -/
theorem ofJson?_eq_some_iff : ofJson? form = some p ↔ p.Form form := by
  induction p using inductionOn generalizing form with
  | leaf c =>
    constructor
    · intro h
      obtain ⟨inner, c, rfl, ⟨⟩, hc⟩ | ⟨_, _, _, ⟨⟩, _⟩ | ⟨_, _, _, ⟨⟩, _⟩ | ⟨_, _, _, ⟨⟩, _⟩ :=
        ofJson?_cases.1 h
      exact .leaf (Condition.ofJson?_eq_some_iff.1 hc)
    · rintro ⟨h⟩
      exact ofJson?_cases.2 (.inl ⟨_, _, rfl, rfl, Condition.ofJson?_eq_some_iff.2 h⟩)
  | and children ih =>
    constructor
    · intro h
      obtain ⟨_, _, _, ⟨⟩, _⟩ | ⟨forms, ps, rfl, ⟨⟩, h⟩ | ⟨_, _, _, ⟨⟩, _⟩ | ⟨_, _, _, ⟨⟩, _⟩ :=
        ofJson?_cases.1 h
      exact .and ((ofJsonAll?_eq_some_iff_form ih).1 h)
    · rintro (_ | h)
      exact ofJson?_cases.2 (.inr (.inl ⟨_, _, rfl, rfl, (ofJsonAll?_eq_some_iff_form ih).2 h⟩))
  | or children ih =>
    constructor
    · intro h
      obtain ⟨_, _, _, ⟨⟩, _⟩ | ⟨_, _, _, ⟨⟩, _⟩ | ⟨forms, ps, rfl, ⟨⟩, h⟩ | ⟨_, _, _, ⟨⟩, _⟩ :=
        ofJson?_cases.1 h
      exact .or ((ofJsonAll?_eq_some_iff_form ih).1 h)
    · rintro (_ | _ | h)
      exact ofJson?_cases.2
        (.inr (.inr (.inl ⟨_, _, rfl, rfl, (ofJsonAll?_eq_some_iff_form ih).2 h⟩)))
  | group inner ih =>
    constructor
    · intro h
      obtain ⟨_, _, _, ⟨⟩, _⟩ | ⟨_, _, _, ⟨⟩, _⟩ | ⟨_, _, _, ⟨⟩, _⟩ | ⟨form, q, rfl, ⟨⟩, h⟩ :=
        ofJson?_cases.1 h
      exact .group (ih.1 h)
    · rintro (_ | _ | _ | h)
      exact ofJson?_cases.2 (.inr (.inr (.inr ⟨_, _, rfl, rfl, ih.2 h⟩)))

theorem toJsonAll_eq_map (ps : List Predicate) : toJsonAll ps = ps.map toJson := by
  induction ps with
  | nil => rfl
  | cons p ps ih => rw [toJsonAll, ih, List.map_cons]

/-- The written form of a tree is one of its forms. -/
theorem form_toJson (p : Predicate) : p.Form p.toJson := by
  have hall {ps : List Predicate} (ih : ∀ p ∈ ps, p.Form p.toJson) :
      List.Forall₂ Form ps (toJsonAll ps) := by
    rw [toJsonAll_eq_map, List.forall₂_map_right_iff, List.forall₂_same]
    exact ih
  induction p using inductionOn with
  | leaf c => exact .leaf c.form_toJson
  | and children ih => exact .and (hall ih)
  | or children ih => exact .or (hall ih)
  | group inner ih => exact .group ih

/-- **A tree that is written is read back.** -/
theorem ofJson?_toJson (p : Predicate) : ofJson? p.toJson = some p :=
  ofJson?_eq_some_iff.2 p.form_toJson

/-! ### Trees that are alike -/

/-- Trees that have the same shape, the same fields and operators, and values that are the same. -/
inductive Agree : Predicate → Predicate → Prop
  | leaf {field : String} {operator : Operator} {a b : Json} (h : a.same b = true) :
      Agree (.leaf ⟨field, operator, a⟩) (.leaf ⟨field, operator, b⟩)
  | and {ps qs : List Predicate} (h : List.Forall₂ Agree ps qs) : Agree (.and ps) (.and qs)
  | or {ps qs : List Predicate} (h : List.Forall₂ Agree ps qs) : Agree (.or ps) (.or qs)
  | group {p q : Predicate} (h : Agree p q) : Agree (.group p) (.group q)

theorem sameItems_iff {as bs : List Json} :
    Json.sameItems as bs = true ↔ List.Forall₂ (fun a b => a.same b = true) as bs := by
  induction as generalizing bs with
  | nil => cases bs <;> simp [Json.sameItems]
  | cons a as ih => cases bs <;> simp [Json.sameItems, ih]

theorem same_leaf_iff {c d : Condition} : same (.leaf c) (.leaf d) = true ↔
    c.field = d.field ∧ c.operator = d.operator ∧ c.value.same d.value = true := by
  simp [same, toJson, Condition.toJson, Operator.toJson, Json.same, Json.sameMembers,
    Operator.name_inj]

theorem sameItems_toJsonAll_iff (h : ∀ p ∈ ps, ∀ {q : Predicate}, p.same q = true ↔ p.Agree q) :
    Json.sameItems (toJsonAll ps) (toJsonAll qs) = true ↔ List.Forall₂ Agree ps qs := by
  rw [sameItems_iff, toJsonAll_eq_map, toJsonAll_eq_map, List.forall₂_map_left_iff,
    List.forall₂_map_right_iff]
  exact forall₂_iff_of_mem fun p hp q => h p hp

/-- **Written trees are the same** exactly if the trees are alike. -/
theorem same_iff : p.same q = true ↔ p.Agree q := by
  have hnode (key : String) (a b : Json) :
      (Json.obj [(key, a)]).same (.obj [(key, b)]) = a.same b := by
    simp [Json.same, Json.sameMembers]
  induction p using inductionOn generalizing q with
  | leaf c =>
    cases q with
    | leaf d =>
      rw [same_leaf_iff]
      constructor
      · obtain ⟨field, operator, a⟩ := c
        obtain ⟨_, _, b⟩ := d
        rintro ⟨⟨⟩, ⟨⟩, hsame⟩
        exact .leaf hsame
      · rintro ⟨hsame⟩
        exact ⟨rfl, rfl, hsame⟩
    | _ => exact iff_of_false (by simp [same, toJson, Json.same, Json.sameMembers]) nofun
  | and ps ih =>
    cases q with
    | and qs =>
      rw [same, toJson, toJson, hnode, Json.same, sameItems_toJsonAll_iff ih]
      constructor
      · exact .and
      · rintro (_ | h)
        exact h
    | _ => exact iff_of_false (by simp [same, toJson, Json.same, Json.sameMembers]) nofun
  | or ps ih =>
    cases q with
    | or qs =>
      rw [same, toJson, toJson, hnode, Json.same, sameItems_toJsonAll_iff ih]
      constructor
      · exact .or
      · rintro (_ | _ | h)
        exact h
    | _ => exact iff_of_false (by simp [same, toJson, Json.same, Json.sameMembers]) nofun
  | group p ih =>
    cases q with
    | group q =>
      rw [same, toJson, toJson, hnode]
      constructor
      · exact fun h => .group (ih.1 h)
      · rintro (_ | _ | _ | h)
        exact ih.2 h
    | _ => exact iff_of_false (by simp [same, toJson, Json.same, Json.sameMembers]) nofun

/-- **Predicates in JSON.** Every tree is read back from what is written, so two trees that are
written as one value are one tree, and two that are written as values that are the same are alike.
What is read at all is read from the forms of one tree, and writing that tree gives another form of
it, from which it is read again. -/
theorem serialization :
    (∀ p : Predicate, ofJson? p.toJson = some p) ∧
    (∀ p q : Predicate, (p.toJson = q.toJson ↔ p = q) ∧ (p.same q = true ↔ p.Agree q)) ∧
    (∀ form p, ofJson? form = some p ↔ p.Form form) ∧
    ∀ form p, ofJson? form = some p → p.Form p.toJson ∧ ofJson? p.toJson = some p := by
  refine ⟨ofJson?_toJson, fun p q => ⟨⟨fun h => ?_, congrArg toJson⟩, same_iff⟩,
    fun form p => ofJson?_eq_some_iff, fun form p _ => ⟨p.form_toJson, ofJson?_toJson p⟩⟩
  have hread := ofJson?_toJson p
  rw [h, ofJson?_toJson q] at hread
  exact (Option.some.inj hread).symm

/-- A condition as an array, with its operator as an object and a tree as its value, is read as what
is written otherwise. -/
theorem serialization_array :
    let value := Json.obj [("and", .arr [])]
    let form := Json.obj [("or", .arr [
      .obj [("leaf", .arr [.str "a", .obj [("NOT_IN", .null)], value])],
      .obj [("group", .obj [("leaf", .obj
        [("extra", .null), ("field", .str ""), ("operator", .str "EQUAL"), ("value", .null)])])]])]
    let p := Predicate.or [.leaf ⟨"a", .notIn, value⟩, .group (.leaf ⟨"", .equal, .null⟩)]
    ofJson? form = some p ∧ ofJson? p.toJson = some p := by
  intro value form p
  obtain ⟨-, -, hread, hagain⟩ := serialization
  have hform : p.Form form := by
    refine .or (.cons (.leaf (.array .object)) (.cons (.group (.leaf ?_)) .nil))
    exact .object rfl rfl .name rfl
  exact ⟨(hread form p).2 hform, (hagain form p ((hread form p).2 hform)).2⟩

end Predicate

end QueryCache
