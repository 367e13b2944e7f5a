import QueryCache.Query.Basic

/-!
# Compiling predicates

A dialect says how the texts or filters of one target are made and put together. Assembly is the
same for all dialects: children that come out empty are dropped, the signatures of the others are
joined in order, and a joined query leads with its joiner.

`Compiler` is the interface: a target with the token for placeholders. Queries may be assembled
from predicates and from queries that were compiled before; those must be of the same target.

## Main definitions

* `Dialect` : the texts or filters of a target.
* `Dialect.compile`, `Dialect.joined`, `Dialect.added`, `Dialect.grouped` : assembly.
* `Compiler.compile`, `Compiler.and`, `Compiler.or`, `Compiler.add`, `Compiler.group`.
-/

namespace QueryCache

/-- A child of an assembled query. -/
inductive Clause where
  | node (predicate : Predicate)
  | compiled (query : Query)

/-- How the texts or filters of a target are made and put together. -/
structure Dialect (φ : Type) where
  target : Target
  /-- The form of a condition; `none` if the condition is left out. -/
  leaf : Condition → Except CompileError (Option φ)
  /-- Forms under one joiner. -/
  join : Joiner → φ → List φ → φ
  /-- Forms side by side, each behind its own joiner. -/
  concat : φ → List (Option Joiner × φ) → φ
  /-- The form in parentheses, where the target has them. -/
  group : Except CompileError (φ → φ)
  /-- The fragment of a query of the target. -/
  ofQuery? : Query → Option (Option (Fragment φ))

namespace Dialect

/-- Condition texts with a token for placeholders. -/
def relational (placeholder : String) : Dialect Sql where
  target := .relational
  leaf := fun c => (Sql.ofCondition placeholder c).map some
  join := Sql.join
  concat := Sql.concat
  group := .ok Sql.group
  ofQuery? := fun q => match q with
    | .relational fragment => some fragment
    | .document _ => none

/-- Filter objects. -/
def document : Dialect Filter where
  target := .document
  leaf := fun c => .ok (Filter.ofCondition c)
  join := Filter.join
  concat := Filter.concat
  group := .error (.unsupported .document "group")
  ofQuery? := fun q => match q with
    | .relational _ => none
    | .document fragment => some fragment

variable {φ : Type} (d : Dialect φ)

/-- The query of a single condition. -/
def ofCondition (c : Condition) : Except CompileError (Option (Fragment φ)) :=
  match d.leaf c with
  | .error e => .error e
  | .ok form => .ok (form.map fun body => ⟨body, none, Signature.ofCondition c⟩)

/-- Joins children under a joiner, with which the result leads. -/
def joinFragments (joiner : Joiner) (children : List (Option (Fragment φ))) : Option (Fragment φ) :=
  match children.filterMap id with
  | [] => none
  | first :: rest => some
    { body := d.join joiner first.body (rest.map Fragment.body)
      leading := some joiner
      signature := first.signature.concat (rest.map Fragment.signature) }

/-- Puts children side by side, each behind its own leading joiner. The result has none. -/
def addFragments (children : List (Option (Fragment φ))) : Option (Fragment φ) :=
  match children.filterMap id with
  | [] => none
  | first :: rest => some
    { body := d.concat first.body (rest.map fun f => (f.leading, f.body))
      leading := none
      signature := first.signature.concat (rest.map Fragment.signature) }

/-- Puts a child in parentheses. An empty child stays empty. -/
def groupFragment (child : Option (Fragment φ)) : Except CompileError (Option (Fragment φ)) :=
  match d.group with
  | .error e => .error e
  | .ok wrap => .ok (child.map fun f => { f with body := wrap f.body })

mutual

/-- The query of a predicate. -/
def compile : Predicate → Except CompileError (Option (Fragment φ))
  | .leaf c => d.ofCondition c
  | .and children =>
    match compileAll children with
    | .error e => .error e
    | .ok compiled => .ok (d.joinFragments .and compiled)
  | .or children =>
    match compileAll children with
    | .error e => .error e
    | .ok compiled => .ok (d.joinFragments .or compiled)
  | .group inner =>
    match compile inner with
    | .error e => .error e
    | .ok compiled => d.groupFragment compiled

/-- The queries of several predicates; the first one that fails decides. -/
def compileAll : List Predicate → Except CompileError (List (Option (Fragment φ)))
  | [] => .ok []
  | child :: rest =>
    match compile child with
    | .error e => .error e
    | .ok first =>
      match compileAll rest with
      | .error e => .error e
      | .ok others => .ok (first :: others)

end

/-- The fragment of a child. -/
def resolve : Clause → Except CompileError (Option (Fragment φ))
  | .node predicate => d.compile predicate
  | .compiled query =>
    match d.ofQuery? query with
    | some fragment => .ok fragment
    | none => .error (.targetMismatch d.target query.target)

/-- Joins children under a joiner. -/
def joined (joiner : Joiner) (children : List Clause) :
    Except CompileError (Option (Fragment φ)) :=
  (children.mapM d.resolve).map (d.joinFragments joiner)

/-- Puts children side by side. -/
def added (children : List Clause) : Except CompileError (Option (Fragment φ)) :=
  (children.mapM d.resolve).map d.addFragments

/-- Puts a child in parentheses. -/
def grouped (child : Clause) : Except CompileError (Option (Fragment φ)) :=
  d.resolve child >>= d.groupFragment

end Dialect

/-- A target with the token that stands for a bound value in condition texts. -/
structure Compiler where
  target : Target := .relational
  placeholder : String := "?"

namespace Compiler

/-- Runs an assembly in the dialect of the target. -/
def assemble (c : Compiler)
    (run : {φ : Type} → Dialect φ → Except CompileError (Option (Fragment φ))) :
    Except CompileError Query :=
  match c.target with
  | .relational => (run (Dialect.relational c.placeholder)).map .relational
  | .document => (run Dialect.document).map .document

/-- The query of a predicate. -/
def compile (c : Compiler) (predicate : Predicate) : Except CompileError Query :=
  c.assemble fun d => d.compile predicate

/-- The conjunction of the children. -/
def and (c : Compiler) (children : List Clause) : Except CompileError Query :=
  c.assemble fun d => d.joined .and children

/-- The disjunction of the children. -/
def or (c : Compiler) (children : List Clause) : Except CompileError Query :=
  c.assemble fun d => d.joined .or children

/-- The children side by side, each behind its own leading joiner. -/
def add (c : Compiler) (children : List Clause) : Except CompileError Query :=
  c.assemble fun d => d.added children

/-- The child in parentheses. -/
def group (c : Compiler) (child : Clause) : Except CompileError Query :=
  c.assemble fun d => d.grouped child

end Compiler

end QueryCache
