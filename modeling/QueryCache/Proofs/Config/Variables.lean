import QueryCache.Proofs.Config.Text
import QueryCache.Proofs.Query.Failures
import QueryCache.Session

/-!
# Configurations from variables

Four variables hold numbers and one holds a policy. They are read in a fixed order, and the first
one that cannot be read decides how the reading fails. Only when all have been read are the limits
looked at, in an order of their own: none may be zero. What is read is then a configuration that a
cache can run with, and every such configuration can be written down in variables.

## Main definitions

* `Config.Variable` : the variables; `Config.Variable.Unreadable`, `Config.Variable.Zero` : why one
  is refused.
* `Config.Given`, `Config.Holds` : what the variables hold; `Config.Given.config` : the
  configuration that comes of it.

## Main results

* `Config.Holds.ofLookup_eq_ok_iff`, `Config.ofLookup_eq_error_iff` : what is read.
* `Config.variables_read` : all of this, and which configurations can be written down.
-/

namespace QueryCache.Config

/-! ### Variables -/

/-- The variables that describe a configuration. -/
inductive Variable where
  | maxInFlight
  | timeout
  | maxIndexes
  | maxCompositeFields
  | onError

namespace Variable

/-- The variables in the order in which they are read. -/
def all : List Variable := [.maxInFlight, .timeout, .maxIndexes, .maxCompositeFields, .onError]

theorem mem_all (v : Variable) : v ∈ all := by cases v <;> simp [all]

/-- The name under which a variable is looked up. -/
def name : Variable → String
  | .maxInFlight => "KEEL_CACHE_MAX_IN_FLIGHT"
  | .timeout => "KEEL_CACHE_OP_TIMEOUT_MS"
  | .maxIndexes => "KEEL_CACHE_MAX_INDEXES"
  | .maxCompositeFields => "KEEL_CACHE_MAX_COMPOSITE_FIELDS"
  | .onError => "KEEL_CACHE_ON_ERROR"

/-- A text that can be read from a variable: a policy's name from the last one, and a number from
the others. -/
def Readable : Variable → String → Prop
  | .onError, text => ∃ policy, NamesPolicy text policy
  | _, text => ∃ n, NamesNumber text n

/-- What is said of a text that cannot be read. -/
def reason : Variable → String
  | .onError => "expected \"degrade\" or \"propagate\""
  | _ => "not a valid number"

/-- A variable holds a text that cannot be read. The error shows the text as it is. -/
def Unreadable (lookup : String → Option String) (v : Variable) (e : ConfigError) : Prop :=
  ∃ text, lookup v.name = some text ∧ ¬ v.Readable text ∧ e = .invalidValue v.name text v.reason

/-- The variables that set limits, each with the name of its limit, in the order in which the limits
are looked at. -/
def limits : List (Variable × String) :=
  [(.maxInFlight, "max_in_flight"), (.maxIndexes, "max_indexes"),
    (.maxCompositeFields, "max_composite_fields")]

/-- A limit is set to zero. -/
def Zero (lookup : String → Option String) (limit : Variable × String) (e : ConfigError) : Prop :=
  ∃ text, lookup limit.1.name = some text ∧ NamesNumber text 0 ∧
    e = .invalidValue limit.2 "0" "must be greater than zero"

end Variable

/-- What the variables hold. -/
structure Given where
  maxInFlight : Option Nat
  timeout : Option Nat
  maxIndexes : Option Nat
  maxCompositeFields : Option Nat
  onError : Option ErrorPolicy

/-- The configuration that is given. A time limit of zero stands for none, and what is not given has
its default. -/
def Given.config (given : Given) : Config where
  maxInFlight := given.maxInFlight.getD 64
  opTimeout := match given.timeout with
    | none => some 5000
    | some 0 => none
    | some ms => some ms
  maxIndexes := given.maxIndexes.getD 10
  maxCompositeFields := given.maxCompositeFields.getD 5
  onCacheError := given.onError.getD .degrade

/-- The variables hold what is given, and nothing where nothing is given. -/
structure Holds (lookup : String → Option String) (given : Given) : Prop where
  maxInFlight : Option.Rel NamesNumber (lookup Variable.maxInFlight.name) given.maxInFlight
  timeout : Option.Rel NamesNumber (lookup Variable.timeout.name) given.timeout
  maxIndexes : Option.Rel NamesNumber (lookup Variable.maxIndexes.name) given.maxIndexes
  maxCompositeFields :
    Option.Rel NamesNumber (lookup Variable.maxCompositeFields.name) given.maxCompositeFields
  onError : Option.Rel NamesPolicy (lookup Variable.onError.name) given.onError

variable {lookup : String → Option String} {given : Given} {c : Config} {e : ConfigError}

/-! ### Reading one variable -/

/-- A variable is read by reading its text, if it has one. -/
def readVar {α : Type} (parse? : String → Option α) (reason : String)
    (lookup : String → Option String) (name : String) : Except ConfigError (Option α) :=
  match lookup name with
  | none => .ok none
  | some text =>
    match parse? text with
    | some a => .ok (some a)
    | none => .error (.invalidValue name text reason)

section ReadVar

variable {α : Type} {parse? : String → Option α} {reason name : String} {given : Option α}
  {Names : String → α → Prop}

theorem readVar_eq_ok_iff (hparse : ∀ text a, parse? text = some a ↔ Names text a) :
    readVar parse? reason lookup name = .ok given ↔ Option.Rel Names (lookup name) given := by
  rw [readVar]
  cases lookup name with
  | none =>
    constructor
    · rintro ⟨⟩
      exact .none
    · rintro ⟨⟩
      rfl
  | some text =>
    constructor
    · intro h
      cases htext : parse? text with
      | none => simp [htext] at h
      | some a =>
        simp only [htext, Except.ok.injEq] at h
        exact h ▸ .some ((hparse text a).1 htext)
    · rintro (hnames | -)
      simp only [(hparse text _).2 hnames]

theorem readVar_eq_error_iff (hparse : ∀ text a, parse? text = some a ↔ Names text a) :
    readVar parse? reason lookup name = .error e ↔
      ∃ text, lookup name = some text ∧ (¬ ∃ a, Names text a) ∧
        e = .invalidValue name text reason := by
  rw [readVar]
  simp only [← hparse]
  cases lookup name with
  | none => simp
  | some text => cases htext : parse? text <;> simp [htext, eq_comm]

end ReadVar

theorem numberVar_eq (lookup : String → Option String) (name : String) :
    numberVar lookup name = readVar parseNumber? "not a valid number" lookup name := by
  rw [numberVar, readVar]
  cases lookup name with
  | none => rfl
  | some text =>
    dsimp only
    cases parseNumber? text <;> rfl

theorem policyVar_eq (lookup : String → Option String) (name : String) :
    policyVar lookup name =
      readVar ErrorPolicy.parse? "expected \"degrade\" or \"propagate\"" lookup name := by
  rw [policyVar, readVar]
  cases lookup name with
  | none => rfl
  | some text =>
    dsimp only
    cases ErrorPolicy.parse? text <;> rfl

theorem numberVar_eq_ok_iff {name : String} {n : Option Nat} :
    numberVar lookup name = .ok n ↔ Option.Rel NamesNumber (lookup name) n := by
  rw [numberVar_eq]
  exact readVar_eq_ok_iff fun _ _ => parseNumber?_eq_some_iff

theorem numberVar_eq_error_iff {v : Variable} (hv : v ≠ .onError) :
    numberVar lookup v.name = .error e ↔ v.Unreadable lookup e := by
  rw [numberVar_eq, readVar_eq_error_iff fun _ _ => parseNumber?_eq_some_iff, Variable.Unreadable]
  cases v with
  | onError => exact (hv rfl).elim
  | _ => rfl

theorem policyVar_eq_ok_iff {name : String} {policy : Option ErrorPolicy} :
    policyVar lookup name = .ok policy ↔ Option.Rel NamesPolicy (lookup name) policy := by
  rw [policyVar_eq]
  exact readVar_eq_ok_iff fun _ _ => parse?_eq_some_iff

theorem policyVar_eq_error_iff :
    policyVar lookup Variable.onError.name = .error e ↔ Variable.onError.Unreadable lookup e := by
  rw [policyVar_eq, readVar_eq_error_iff fun _ _ => parse?_eq_some_iff]
  rfl

/-! ### What is read -/

/-- What all variables that are set can be read from is held. -/
theorem exists_holds (h : ∀ v : Variable, ∀ e, ¬ v.Unreadable lookup e) :
    ∃ given, Holds lookup given := by
  have hnumber {v : Variable} (hv : v ≠ .onError) :
      ∃ n, Option.Rel NamesNumber (lookup v.name) n := by
    simp only [← numberVar_eq_ok_iff, exists_ok_iff, Ne, numberVar_eq_error_iff hv]
    exact h v
  have hpolicy : ∃ policy, Option.Rel NamesPolicy (lookup Variable.onError.name) policy := by
    simp only [← policyVar_eq_ok_iff, exists_ok_iff, Ne, policyVar_eq_error_iff]
    exact h .onError
  obtain ⟨maxInFlight, h₁⟩ := hnumber (v := .maxInFlight) nofun
  obtain ⟨timeout, h₂⟩ := hnumber (v := .timeout) nofun
  obtain ⟨maxIndexes, h₃⟩ := hnumber (v := .maxIndexes) nofun
  obtain ⟨maxCompositeFields, h₄⟩ := hnumber (v := .maxCompositeFields) nofun
  obtain ⟨policy, h₅⟩ := hpolicy
  exact ⟨⟨maxInFlight, timeout, maxIndexes, maxCompositeFields, policy⟩, h₁, h₂, h₃, h₄, h₅⟩

/-- What is held is read and checked. -/
theorem Holds.ofLookup_eq (h : Holds lookup given) :
    ofLookup lookup = do given.config.validate; return given.config := by
  have h₁ : numberVar lookup "KEEL_CACHE_MAX_IN_FLIGHT" = .ok given.maxInFlight :=
    numberVar_eq_ok_iff.2 h.maxInFlight
  have h₂ : numberVar lookup "KEEL_CACHE_OP_TIMEOUT_MS" = .ok given.timeout :=
    numberVar_eq_ok_iff.2 h.timeout
  have h₃ : numberVar lookup "KEEL_CACHE_MAX_INDEXES" = .ok given.maxIndexes :=
    numberVar_eq_ok_iff.2 h.maxIndexes
  have h₄ : numberVar lookup "KEEL_CACHE_MAX_COMPOSITE_FIELDS" = .ok given.maxCompositeFields :=
    numberVar_eq_ok_iff.2 h.maxCompositeFields
  have h₅ : policyVar lookup "KEEL_CACHE_ON_ERROR" = .ok given.onError :=
    policyVar_eq_ok_iff.2 h.onError
  rw [ofLookup, h₁, h₂, h₃, h₄, h₅]
  rfl

/-- The first variable that cannot be read decides. -/
theorem ofLookup_eq_error_of_firstOf (h : FirstOf (Variable.Unreadable lookup) Variable.all e) :
    ofLookup lookup = .error e := by
  have hread (v : Variable) (hv : v ≠ .onError) (h : ∀ e, ¬ v.Unreadable lookup e) :
      ∃ n, numberVar lookup v.name = .ok n := by
    simp only [exists_ok_iff, Ne, numberVar_eq_error_iff hv]
    exact h
  have hfail (v : Variable) (hv : v ≠ .onError) (h : v.Unreadable lookup e) :
      numberVar lookup v.name = .error e := (numberVar_eq_error_iff hv).2 h
  simp only [Variable.all, firstOf_cons_iff, not_firstOf_nil, and_false, or_false] at h
  rw [ofLookup]
  rcases h with hbad | ⟨h₁, h⟩
  · have hbad : numberVar lookup "KEEL_CACHE_MAX_IN_FLIGHT" = _ := hfail .maxInFlight nofun hbad
    rw [hbad]
    rfl
  obtain ⟨n₁, h₁⟩ := hread .maxInFlight nofun h₁
  have h₁ : numberVar lookup "KEEL_CACHE_MAX_IN_FLIGHT" = _ := h₁
  rw [h₁]
  rcases h with hbad | ⟨h₂, h⟩
  · have hbad : numberVar lookup "KEEL_CACHE_OP_TIMEOUT_MS" = _ := hfail .timeout nofun hbad
    rw [hbad]
    rfl
  obtain ⟨n₂, h₂⟩ := hread .timeout nofun h₂
  have h₂ : numberVar lookup "KEEL_CACHE_OP_TIMEOUT_MS" = _ := h₂
  rw [h₂]
  rcases h with hbad | ⟨h₃, h⟩
  · have hbad : numberVar lookup "KEEL_CACHE_MAX_INDEXES" = _ := hfail .maxIndexes nofun hbad
    rw [hbad]
    rfl
  obtain ⟨n₃, h₃⟩ := hread .maxIndexes nofun h₃
  have h₃ : numberVar lookup "KEEL_CACHE_MAX_INDEXES" = _ := h₃
  rw [h₃]
  rcases h with hbad | ⟨h₄, hbad⟩
  · have hbad : numberVar lookup "KEEL_CACHE_MAX_COMPOSITE_FIELDS" = _ :=
      hfail .maxCompositeFields nofun hbad
    rw [hbad]
    rfl
  obtain ⟨n₄, h₄⟩ := hread .maxCompositeFields nofun h₄
  have h₄ : numberVar lookup "KEEL_CACHE_MAX_COMPOSITE_FIELDS" = _ := h₄
  have hbad : policyVar lookup "KEEL_CACHE_ON_ERROR" = _ := policyVar_eq_error_iff.2 hbad
  rw [h₄, hbad]
  rfl

/-- A text that can be read is what no variable fails for. -/
theorem forall_readable_iff :
    (∀ v : Variable, ∀ text ∈ lookup v.name, v.Readable text) ↔
      ∀ v : Variable, ∀ e, ¬ v.Unreadable lookup e := by
  constructor
  · rintro h v e ⟨text, htext, hbad, -⟩
    exact hbad (h v text htext)
  · intro h v text htext
    by_contra hbad
    exact h v _ ⟨text, htext, hbad, rfl⟩

theorem not_unreadable_of_ofLookup (h : ofLookup lookup = .ok c) (v : Variable)
    (e : ConfigError) : ¬ v.Unreadable lookup e := fun hv => by
  obtain ⟨e', hfirst⟩ := exists_firstOf_iff.2 ⟨v, v.mem_all, e, hv⟩
  cases h.symm.trans (ofLookup_eq_error_of_firstOf hfirst)

theorem exists_holds_of_ofLookup (h : ofLookup lookup = .ok c) : ∃ given, Holds lookup given :=
  exists_holds (not_unreadable_of_ofLookup h)

/-! ### Limits -/

/-- Where the default is not zero, a limit is zero exactly if it is set so. -/
theorem getD_eq_zero_iff {held : Option String} {n : Option Nat} {d : Nat} (hd : d ≠ 0)
    (h : Option.Rel NamesNumber held n) :
    n.getD d = 0 ↔ ∃ text, held = some text ∧ NamesNumber text 0 := by
  cases h with
  | none => simp [hd]
  | @some text n hn =>
    constructor
    · rintro rfl
      exact ⟨text, rfl, hn⟩
    · rintro ⟨_, ⟨⟩, hzero⟩
      exact hn.unique hzero

/-- A limit that is given is zero exactly if its variable is set so. -/
theorem Holds.zero_iff (h : Holds lookup given) :
    (∀ e, Variable.Zero lookup (.maxInFlight, "max_in_flight") e ↔
      given.config.maxInFlight = 0 ∧ e = zeroLimit "max_in_flight") ∧
    (∀ e, Variable.Zero lookup (.maxIndexes, "max_indexes") e ↔
      given.config.maxIndexes = 0 ∧ e = zeroLimit "max_indexes") ∧
    (∀ e, Variable.Zero lookup (.maxCompositeFields, "max_composite_fields") e ↔
      given.config.maxCompositeFields = 0 ∧ e = zeroLimit "max_composite_fields") := by
  have hzero {v : Variable} {n : Option Nat} {d : Nat} {label : String} (hd : d ≠ 0)
      (hn : Option.Rel NamesNumber (lookup v.name) n) (e : ConfigError) :
      Variable.Zero lookup (v, label) e ↔ n.getD d = 0 ∧ e = zeroLimit label := by
    rw [getD_eq_zero_iff hd hn]
    simp only [Variable.Zero, ← and_assoc, exists_and_right, zeroLimit]
  exact ⟨hzero (by decide) h.maxInFlight, hzero (by decide) h.maxIndexes,
    hzero (by decide) h.maxCompositeFields⟩

/-- A configuration is refused for its first limit that is zero. -/
theorem Holds.validate_eq_error_iff (h : Holds lookup given) :
    given.config.validate = .error e ↔ FirstOf (Variable.Zero lookup) Variable.limits e := by
  obtain ⟨h₁, h₂, h₃⟩ := h.zero_iff
  simp only [Variable.limits, firstOf_cons_iff, not_firstOf_nil, h₁, h₂, h₃, validate]
  by_cases hzero₁ : given.config.maxInFlight = 0
  · simp [hzero₁, eq_comm]
  by_cases hzero₂ : given.config.maxIndexes = 0
  · simp [hzero₁, hzero₂, eq_comm]
  by_cases hzero₃ : given.config.maxCompositeFields = 0
  · simp [hzero₁, hzero₂, hzero₃, eq_comm]
  · simp [hzero₁, hzero₂, hzero₃]

theorem forall_not_zero_iff :
    (∀ limit ∈ Variable.limits, ∀ text ∈ lookup limit.1.name, ¬ NamesNumber text 0) ↔
      ∀ e, ¬ FirstOf (Variable.Zero lookup) Variable.limits e := by
  rw [← not_exists, exists_firstOf_iff]
  constructor
  · rintro h ⟨limit, hlimit, e, text, htext, hzero, -⟩
    exact h limit hlimit text htext hzero
  · intro h limit hlimit text htext hzero
    exact h ⟨limit, hlimit, _, text, htext, hzero, rfl⟩

theorem Holds.ofLookup_eq_error_iff_firstOf (h : Holds lookup given) :
    ofLookup lookup = .error e ↔ FirstOf (Variable.Zero lookup) Variable.limits e := by
  rw [h.ofLookup_eq, ← h.validate_eq_error_iff]
  cases given.config.validate with
  | error e' =>
    constructor
    · rintro ⟨⟩
      rfl
    · rintro ⟨⟩
      rfl
  | ok u => exact iff_of_false nofun nofun

/-- **What is read** from variables is what they hold, if no limit is zero. -/
theorem Holds.ofLookup_eq_ok_iff (h : Holds lookup given) :
    ofLookup lookup = .ok c ↔ c = given.config ∧ c.validate = .ok () := by
  rw [h.ofLookup_eq]
  cases hvalid : given.config.validate with
  | error e =>
    refine iff_of_false nofun ?_
    rintro ⟨rfl, hc⟩
    cases hvalid.symm.trans hc
  | ok u =>
    constructor
    · rintro ⟨⟩
      exact ⟨rfl, hvalid⟩
    · rintro ⟨rfl, -⟩
      rfl

/-- **How reading fails**: by the first variable that cannot be read, or else by the first limit
that is zero. -/
theorem ofLookup_eq_error_iff : ofLookup lookup = .error e ↔
    FirstOf (Variable.Unreadable lookup) Variable.all e ∨
      (∀ v : Variable, ∀ e, ¬ v.Unreadable lookup e) ∧
        FirstOf (Variable.Zero lookup) Variable.limits e := by
  by_cases hread : ∀ v : Variable, ∀ e, ¬ v.Unreadable lookup e
  · obtain ⟨given, hgiven⟩ := exists_holds hread
    have hnone : ¬ FirstOf (Variable.Unreadable lookup) Variable.all e := by
      rintro ⟨_, v, _, _, _, hv⟩
      exact hread v e hv
    rw [hgiven.ofLookup_eq_error_iff_firstOf, or_iff_right hnone, and_iff_right hread]
  · obtain ⟨v, hv⟩ := not_forall.1 hread
    obtain ⟨e', hfirst⟩ := exists_firstOf_iff.2 ⟨v, v.mem_all, not_forall_not.1 hv⟩
    rw [or_iff_left fun h => hread h.1, ofLookup_eq_error_of_firstOf hfirst]
    constructor
    · rintro ⟨⟩
      exact hfirst
    · intro h
      rw [← ofLookup_eq_error_of_firstOf hfirst, ofLookup_eq_error_of_firstOf h]

/-- **When something is read**: all variables that are set can be read, and no limit is zero. -/
theorem exists_ofLookup_eq_ok_iff : (∃ c, ofLookup lookup = .ok c) ↔
    (∀ v : Variable, ∀ text ∈ lookup v.name, v.Readable text) ∧
      ∀ limit ∈ Variable.limits, ∀ text ∈ lookup limit.1.name, ¬ NamesNumber text 0 := by
  rw [forall_readable_iff, forall_not_zero_iff]
  constructor
  · rintro ⟨c, hc⟩
    obtain ⟨given, hgiven⟩ := exists_holds_of_ofLookup hc
    refine ⟨not_unreadable_of_ofLookup hc, fun e he => ?_⟩
    cases hc.symm.trans (hgiven.ofLookup_eq_error_iff_firstOf.2 he)
  · rintro ⟨hread, hzero⟩
    obtain ⟨given, hgiven⟩ := exists_holds hread
    exact exists_ok_iff.2 fun e he => hzero e (hgiven.ofLookup_eq_error_iff_firstOf.1 he)

/-! ### What can be written -/

/-- The limits are numbers of 64 bits, and so is the time limit if there is one; it is not zero. -/
structure Writable (c : Config) : Prop where
  maxInFlight : c.maxInFlight ≤ 0xffffffffffffffff
  opTimeout : ∀ ms ∈ c.opTimeout, 0 < ms ∧ ms ≤ 0xffffffffffffffff
  maxIndexes : c.maxIndexes ≤ 0xffffffffffffffff
  maxCompositeFields : c.maxCompositeFields ≤ 0xffffffffffffffff

theorem le_of_rel {held : Option String} {n : Option Nat} {d : Nat}
    (hd : d ≤ 0xffffffffffffffff) (h : Option.Rel NamesNumber held n) :
    n.getD d ≤ 0xffffffffffffffff := by
  cases h with
  | none => exact hd
  | some hn => exact hn.le

theorem Holds.writable (h : Holds lookup given) : given.config.Writable where
  maxInFlight := le_of_rel (by norm_num) h.maxInFlight
  opTimeout := by
    have hle := le_of_rel (d := 5000) (by norm_num) h.timeout
    obtain ⟨maxInFlight, timeout, maxIndexes, maxCompositeFields, policy⟩ := given
    rcases timeout with - | - | ms
    · rintro _ ⟨⟩
      exact ⟨by norm_num, hle⟩
    · exact nofun
    · rintro _ ⟨⟩
      exact ⟨ms.succ_pos, hle⟩
  maxIndexes := le_of_rel (by norm_num) h.maxIndexes
  maxCompositeFields := le_of_rel (by norm_num) h.maxCompositeFields

/-- Variables that hold a configuration. No time limit is written as zero. -/
def writeVars (c : Config) (name : String) : Option String :=
  [(Variable.maxInFlight.name, c.maxInFlight.repr),
    (Variable.timeout.name, (c.opTimeout.getD 0).repr),
    (Variable.maxIndexes.name, c.maxIndexes.repr),
    (Variable.maxCompositeFields.name, c.maxCompositeFields.repr),
    (Variable.onError.name, String.ofList (policyLetters c.onCacheError))].lookup name

/-- What the variables of a configuration hold. -/
def written (c : Config) : Given :=
  ⟨c.maxInFlight, c.opTimeout.getD 0, c.maxIndexes, c.maxCompositeFields, c.onCacheError⟩

theorem Writable.holds (h : c.Writable) : Holds c.writeVars c.written where
  maxInFlight := .some (namesNumber_repr h.maxInFlight)
  timeout := by
    refine .some (namesNumber_repr ?_)
    cases htimeout : c.opTimeout with
    | none => exact Nat.zero_le _
    | some ms => exact (h.opTimeout ms htimeout).2
  maxIndexes := .some (namesNumber_repr h.maxIndexes)
  maxCompositeFields := .some (namesNumber_repr h.maxCompositeFields)
  onError := .some (namesPolicy_letters c.onCacheError)

theorem Writable.config_written (h : c.Writable) : c.written.config = c := by
  obtain ⟨maxInFlight, opTimeout, maxIndexes, maxCompositeFields, onCacheError⟩ := c
  cases opTimeout with
  | none => rfl
  | some ms =>
    cases ms with
    | zero => cases (h.opTimeout 0 rfl).1
    | succ ms => rfl

/-- Exactly the configurations that are valid and can be written come of variables. -/
theorem exists_ofLookup_iff :
    (∃ lookup, ofLookup lookup = .ok c) ↔ c.validate = .ok () ∧ c.Writable := by
  constructor
  · rintro ⟨lookup, h⟩
    obtain ⟨given, hgiven⟩ := exists_holds_of_ofLookup h
    obtain ⟨rfl, hvalid⟩ := hgiven.ofLookup_eq_ok_iff.1 h
    exact ⟨hvalid, hgiven.writable⟩
  · rintro ⟨hvalid, hwritable⟩
    exact ⟨c.writeVars,
      hwritable.holds.ofLookup_eq_ok_iff.2 ⟨hwritable.config_written.symm, hvalid⟩⟩

/-- A session begins with any configuration that is valid. All units of its gate are free. -/
theorem exists_start (h : c.validate = .ok ()) (ids : Nat → RecordId) (store : Store) :
    ∃ session, Session.start? c ids store = .ok session ∧ session.config = c ∧
      session.world.gate.capacity = min c.maxInFlight 0xffffffff ∧
      session.world.gate.free = session.world.gate.capacity := by
  rw [Session.start?, h]
  exact ⟨_, rfl, rfl, rfl, rfl⟩

/-- **Configurations from variables.** A configuration is read exactly if all variables that are set
can be read and no limit is set to zero. It holds what the variables hold, and a cache runs with it
and has as many units at its gate as are allowed in flight, as far as there can be so many.
Otherwise the first variable that cannot be read is named, or else the first limit that is zero.
Every valid configuration comes of some variables if its numbers are numbers of 64 bits. -/
theorem variables_read :
    (∀ lookup : String → Option String,
      ((∃ c, ofLookup lookup = .ok c) ↔
        (∀ v : Variable, ∀ text ∈ lookup v.name, v.Readable text) ∧
          ∀ limit ∈ Variable.limits, ∀ text ∈ lookup limit.1.name, ¬ NamesNumber text 0) ∧
      (∀ c, ofLookup lookup = .ok c →
        (∃ given, Holds lookup given ∧ c = given.config) ∧ c.validate = .ok () ∧
          ∀ ids store, ∃ session, Session.start? c ids store = .ok session ∧ session.config = c ∧
            session.world.gate.capacity = min c.maxInFlight 0xffffffff ∧
            session.world.gate.free = session.world.gate.capacity) ∧
      ∀ e, ofLookup lookup = .error e ↔
        FirstOf (Variable.Unreadable lookup) Variable.all e ∨
          (∀ v : Variable, ∀ text ∈ lookup v.name, v.Readable text) ∧
            FirstOf (Variable.Zero lookup) Variable.limits e) ∧
    ∀ c : Config, (∃ lookup, ofLookup lookup = .ok c) ↔ c.validate = .ok () ∧ c.Writable := by
  refine ⟨fun lookup => ⟨exists_ofLookup_eq_ok_iff, fun c hc => ?_, fun e => ?_⟩,
    fun c => exists_ofLookup_iff⟩
  · obtain ⟨given, hgiven⟩ := exists_holds_of_ofLookup hc
    obtain ⟨hconfig, hvalid⟩ := hgiven.ofLookup_eq_ok_iff.1 hc
    exact ⟨⟨given, hgiven, hconfig⟩, hvalid, exists_start hvalid⟩
  · rw [forall_readable_iff]
    exact ofLookup_eq_error_iff

/-- Signs and blanks do not count, a time limit of zero is none, and a gate has fewer units than are
allowed in flight if they are very many. -/
theorem variables_read_blanks :
    let lookup := fun name =>
      [("KEEL_CACHE_MAX_IN_FLIGHT", " +05000000000\t"), ("KEEL_CACHE_OP_TIMEOUT_MS", "0"),
        ("KEEL_CACHE_ON_ERROR", "\u3000ProPaGate")].lookup name
    let c : Config := ⟨5000000000, none, 10, 5, .propagate⟩
    ofLookup lookup = .ok c ∧
      ∀ ids store, ∃ session, Session.start? c ids store = .ok session ∧
        session.world.gate.free = 0xffffffff := by
  intro lookup c
  have hread : ofLookup lookup = .ok c := by decide +kernel
  obtain ⟨-, hok, -⟩ := variables_read.1 lookup
  obtain ⟨-, -, hstart⟩ := hok c hread
  refine ⟨hread, fun ids store => ?_⟩
  obtain ⟨session, hsession, -, hcapacity, hfree⟩ := hstart ids store
  exact ⟨session, hsession, hfree.trans hcapacity⟩

end QueryCache.Config
