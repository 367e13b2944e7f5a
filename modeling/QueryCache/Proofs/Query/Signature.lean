import QueryCache.Proofs.Query.Compilation

/-!
# Signatures and conditions

Signatures are joined along with the texts or filters that they name, and what comes out empty has
none. So the signature of a query is made of the conditions in it, from left to right, and there is
one exactly if there is a condition. Comparisons with a list whose value is no list are left out of
queries for documents.

## Main definitions

* `Condition.counts` : the conditions that go into queries for a target.
* `Dialect.Preserves` : a relation between conditions and fragments that all operations preserve.
* `Dialect.Lawful` : what a dialect says about emptiness and signatures.
* `Dialect.HasSignature` : a fragment has the signature of conditions in a row.

## Main results

* `Signature.concat?_flatMap` : signatures in a row, taken together piece by piece.
* `Dialect.Preserves.compile` : what a compiled tree is related to.
* `Dialect.Lawful.preserves_hasSignature` : signatures are preserved.
-/

namespace QueryCache

/-! ### Signatures in a row -/

namespace Signature

theorem append_assoc (s t u : Signature) : (s.append t).append u = s.append (t.append u) := by
  simp [append, String.append_assoc, Bool.and_assoc]

theorem concat_cons (s t : Signature) (rest : List Signature) :
    s.concat (t :: rest) = s.append (t.concat rest) := by
  induction rest generalizing t with
  | nil => rfl
  | cons u rest ih => exact (congrArg (fun x => concat x rest) (append_assoc s t u)).trans (ih _)

/-- A signature followed by others is one followed by all of these in a row. -/
theorem concat_eq_elim (s : Signature) (rest : List Signature) :
    s.concat rest = (concat? rest).elim s s.append := by
  cases rest with
  | nil => rfl
  | cons t rest => exact concat_cons s t rest

theorem concat_append (s : Signature) (xs ys : List Signature) :
    s.concat (xs ++ ys) = (s.concat xs).concat ys :=
  List.foldl_append

/-- Signatures in a row may be taken together piece by piece. -/
theorem concat?_flatMap {α : Type} (f : α → List Signature) (xs : List α) :
    concat? (xs.flatMap f) = concat? (xs.filterMap fun x => concat? (f x)) := by
  induction xs with
  | nil => rfl
  | cons x xs ih =>
    rw [List.flatMap_cons, List.filterMap_cons]
    cases hx : f x with
    | nil => exact ih
    | cons s rest =>
      change some (s.concat (rest ++ xs.flatMap f)) =
        some ((s.concat rest).concat (xs.filterMap fun x => concat? (f x)))
      rw [concat_append, concat_eq_elim, ih, ← concat_eq_elim]

/-- The parts of signatures of conditions in a row. -/
theorem concat_map_ofCondition (c : Condition) (cs : List Condition) :
    (ofCondition c).concat (cs.map ofCondition) =
      { cacheKey := keySeparator.intercalate ((c :: cs).map fun c =>
          c.operator.name ++ keySeparator ++ c.value.token)
        cacheValue := keySeparator.intercalate ((c :: cs).map fun c => c.value.token)
        defaultCacheable := (c :: cs).all fun c => c.operator.isDefaultCacheable } := by
  induction cs generalizing c with
  | nil => simp [concat, ofCondition]
  | cons d cs ih =>
    rw [List.map_cons, concat_cons, ih]
    simp [append, ofCondition, String.append_assoc]

end Signature

/-! ### The conditions that count -/

/-- Whether a condition goes into queries for a target. Queries for documents leave out comparisons
with a list whose value is no list. -/
def Condition.counts (t : Target) (c : Condition) : Bool :=
  match t with
  | .relational => true
  | .document => !c.operator.takesSequence || c.value matches .arr _

theorem Filter.isSome_check? (c : Condition) :
    (Filter.check? c).isSome = c.counts .document := by
  obtain ⟨field, operator, value⟩ := c
  cases operator <;> cases value <;> rfl

/-! ### Relations between conditions and fragments -/

namespace Dialect

variable {φ : Type} {d : Dialect φ} {t : Target}

/-- The operations of a dialect preserve a relation between conditions in a row and fragments: a
condition is related to its own fragment if it counts, and an operation puts the conditions of its
operands in a row. -/
structure Preserves (d : Dialect φ) (t : Target)
    (P : List Condition → Option (Fragment φ) → Prop) : Prop where
  leaf : ∀ {c x}, d.ofCondition c = .ok x → P ([c].filter (Condition.counts t)) x
  join : ∀ {rows xs} (j : Joiner), List.Forall₂ P rows xs → P rows.flatten (d.joinFragments j xs)
  add : ∀ {rows xs}, List.Forall₂ P rows xs → P rows.flatten (d.addFragments xs)
  group : ∀ {row x y}, P row x → d.groupFragment x = .ok y → P row y

theorem Preserves.empty {P : List Condition → Option (Fragment φ) → Prop} (hP : d.Preserves t P) :
    P [] none :=
  hP.add .nil

/-- **What a compiled tree is related to**: its conditions that count. -/
theorem Preserves.compile {P : List Condition → Option (Fragment φ) → Prop} (hP : d.Preserves t P)
    (p : Predicate) {x : Option (Fragment φ)} (h : d.compile p = .ok x) :
    P (p.leaves.filter (Condition.counts t)) x := by
  have rows {children : List Predicate} {xs : List (Option (Fragment φ))}
      (ih : ∀ p ∈ children, ∀ {x}, d.compile p = .ok x → P (p.leaves.filter (Condition.counts t)) x)
      (hxs : List.Forall₂ (fun p x => d.compile p = .ok x) children xs) :
      List.Forall₂ P (children.map fun p => p.leaves.filter (Condition.counts t)) xs :=
    List.forall₂_map_left_iff.2 (forall₂_imp_of_mem hxs fun p hp x hx => ih p hp hx)
  induction p using Predicate.inductionOn generalizing x with
  | leaf c => exact hP.leaf (by rwa [compile_leaf] at h)
  | and children ih =>
    obtain ⟨xs, hxs, rfl⟩ := d.compile_and_eq_ok_iff.1 h
    rw [Predicate.leaves, Predicate.leavesOfAll_eq_flatMap, List.filter_flatMap]
    exact hP.join .and (rows ih hxs)
  | or children ih =>
    obtain ⟨xs, hxs, rfl⟩ := d.compile_or_eq_ok_iff.1 h
    rw [Predicate.leaves, Predicate.leavesOfAll_eq_flatMap, List.filter_flatMap]
    exact hP.join .or (rows ih hxs)
  | group p ih =>
    obtain ⟨y, hy, hgroup⟩ := d.compile_group_eq_ok_iff.1 h
    exact hP.group (ih hy) hgroup

/-! ### Signatures in a dialect -/

/-- The dialect leaves out exactly the conditions that do not count for a target, and keeps the
signatures of the target's queries. -/
structure Lawful (d : Dialect φ) (t : Target) : Prop where
  isSome_leaf : ∀ {c form}, d.leaf c = .ok form → form.isSome = c.counts t
  signature_ofQuery : ∀ {q x}, d.ofQuery? q = some x → x.map Fragment.signature = q.signature?

theorem lawful_relational (placeholder : String) : (relational placeholder).Lawful .relational where
  isSome_leaf := by
    intro c form h
    simp only [relational] at h
    cases hs : Sql.ofCondition placeholder c with
    | error e => simp [hs, Except.map] at h
    | ok s =>
      simp only [hs, Except.map, Except.ok.injEq] at h
      rw [← h]
      rfl
  signature_ofQuery := by
    rintro (x | x) y h
    · cases h
      rfl
    · cases h

theorem lawful_document : document.Lawful .document where
  isSome_leaf := by
    intro c form h
    cases h
    rw [Filter.ofCondition, Option.isSome_map, Filter.isSome_check?]
  signature_ofQuery := by
    rintro (x | x) y h
    · cases h
    · cases h
      rfl

theorem filterMap_signature (xs : List (Option (Fragment φ))) :
    xs.filterMap (fun x => x.map Fragment.signature) =
      (xs.filterMap id).map Fragment.signature := by
  rw [List.map_filterMap]
  rfl

/-- The signature of joined fragments is made of those of the fragments that are not empty. -/
theorem signature_joinFragments (j : Joiner) (xs : List (Option (Fragment φ))) :
    (d.joinFragments j xs).map Fragment.signature =
      Signature.concat? (xs.filterMap fun x => x.map Fragment.signature) := by
  rw [filterMap_signature, joinFragments]
  cases xs.filterMap id <;> rfl

/-- The signature of added fragments is made of those of the fragments that are not empty. -/
theorem signature_addFragments (xs : List (Option (Fragment φ))) :
    (d.addFragments xs).map Fragment.signature =
      Signature.concat? (xs.filterMap fun x => x.map Fragment.signature) := by
  rw [filterMap_signature, addFragments]
  cases xs.filterMap id <;> rfl

theorem signature_groupFragment {x y : Option (Fragment φ)} (h : d.groupFragment x = .ok y) :
    y.map Fragment.signature = x.map Fragment.signature := by
  rw [groupFragment] at h
  cases hg : d.group with
  | error e => simp [hg] at h
  | ok wrap =>
    simp only [hg, Except.ok.injEq] at h
    rw [← h]
    cases x <;> rfl

/-- The fragment has the signature of conditions in a row. -/
def HasSignature (leaves : List Condition) (x : Option (Fragment φ)) : Prop :=
  x.map Fragment.signature = Signature.concat? (leaves.map Signature.ofCondition)

/-- Fragments with the signatures of conditions, taken together. -/
theorem concat?_of_hasSignature {rows : List (List Condition)} {xs : List (Option (Fragment φ))}
    (h : List.Forall₂ HasSignature rows xs) :
    Signature.concat? (xs.filterMap fun x => x.map Fragment.signature) =
      Signature.concat? (rows.flatten.map Signature.ofCondition) := by
  rw [← List.flatMap_id, List.map_flatMap, Signature.concat?_flatMap]
  congr 1
  induction h with
  | nil => rfl
  | cons hx _ ih => rw [List.filterMap_cons, List.filterMap_cons, hx, ih, id]

/-- The signature of a fragment is that of its conditions, whatever the operations. -/
theorem Lawful.preserves_hasSignature (hd : d.Lawful t) : d.Preserves t HasSignature where
  leaf := by
    intro c x h
    rw [ofCondition] at h
    cases hc : d.leaf c with
    | error e => simp [hc] at h
    | ok form =>
      have hsome := hd.isSome_leaf hc
      simp only [hc, Except.ok.injEq] at h
      cases form <;> simp_all [HasSignature, ← h, Signature.concat?, Signature.concat]
  join := fun j h => by rw [HasSignature, signature_joinFragments, concat?_of_hasSignature h]
  add := fun h => by rw [HasSignature, signature_addFragments, concat?_of_hasSignature h]
  group := fun h hgroup => by rwa [HasSignature, signature_groupFragment hgroup]

end Dialect

end QueryCache
