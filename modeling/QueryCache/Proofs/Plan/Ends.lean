import QueryCache.Plan
import QueryCache.Proofs.Store.Contents

/-!
# The ends of a plan

A call to the store is answered as for a map, or it goes wrong: the store or a limit refuses it with
an error, or no answer ever comes and the plan is given up. Calls that run together are answered in
any order, and if one of them goes wrong then some of the others have been answered and the rest
have not acted. So a plan has many ends. A call that goes wrong changes nothing.

Which calls may go wrong, and how, is left open: a statement about the ends of a plan holds for any
store, gate and context that lets no other calls go wrong.

## Main definitions

* `Mishaps` : what may go wrong with which call.
* `Snapshot` : what a store holds and how many identifiers have been minted.
* `Plan.Ends` : the ends of a plan.

## Main results

* `Plan.ends_recover_iff`, `Plan.ends_bind_iff` : a plan that goes on after another one.
* `Plan.ends_call_bind_iff`, `Plan.Ends.of_setAll`, `Plan.Ends.of_deleteAll` : the steps on the
  store.
* `Plan.exists_ends` : every plan ends if all its calls are answered.
-/

namespace QueryCache

/-- What may go wrong with a call to the store: it is refused with an error, or, with none, it is
never answered. -/
abbrev Mishaps := Call → Option CacheError → Prop

namespace Mishaps

/-- Every call is answered. -/
def never : Mishaps := fun _ _ => False

/-- Anything may go wrong with any call. -/
def always : Mishaps := fun _ _ => True

/-- A plan that ends because something goes wrong with one of the calls: with an error, or without a
result. -/
def Stop {α : Type} (mishaps : Mishaps) (calls : List Call) (o : Option (Except Error α)) : Prop :=
  ∃ c ∈ calls, ∃ fault, mishaps c fault ∧ o = fault.map fun e => .error (.cache e)

variable {α : Type} {mishaps : Mishaps} {calls : List Call}

theorem not_stop_ok {a : α} : ¬ mishaps.Stop calls (some (.ok a)) := by
  rintro ⟨c, -, fault, -, ho⟩
  cases fault <;> cases ho

theorem not_stop_never {o : Option (Except Error α)} : ¬ never.Stop calls o :=
  fun ⟨_, _, _, h, _⟩ => h

end Mishaps

/-- What a store holds, and how many identifiers have been minted. -/
structure Snapshot where
  contents : Contents
  minted : Nat

namespace Snapshot

/-- An empty store, and no identifier minted. -/
def empty : Snapshot := ⟨fun _ => none, 0⟩

/-- After calls that are answered one after the other. -/
def after (s : Snapshot) (calls : List Call) : Snapshot :=
  { s with contents := Call.applyAll calls s.contents }

/-- With one value under several keys. -/
def fill (s : Snapshot) (keys : List String) (value : Option ByteArray) : Snapshot :=
  { s with contents := s.contents.fill keys value }

end Snapshot

namespace Plan

variable {ν α β : Type} {mishaps : Mishaps} {ids : Nat → RecordId} {s s' : Snapshot}

/-- The ends of a plan: its result, or none if it is given up, and what it leaves behind. -/
inductive Ends (mishaps : Mishaps) (ids : Nat → RecordId) :
    Plan ν α → Snapshot → Option (Except Error α) → Snapshot → Prop
  | done {result s} : Ends mishaps ids (.done result) s (some result) s
  /-- The call is answered. -/
  | answered {c next s o s'}
      (rest : Ends mishaps ids (next (.ok (c.apply s.contents).1)) (s.after [c]) o s') :
      Ends mishaps ids (.call c next) s o s'
  | refused {c next s o s' e} (mishap : mishaps c (some e))
      (rest : Ends mishaps ids (next (.error e)) s o s') : Ends mishaps ids (.call c next) s o s'
  | dropped {c next s} (mishap : mishaps c none) : Ends mishaps ids (.call c next) s none s
  /-- All calls are answered, in some order. -/
  | allAnswered {calls order next s o s'} (perm : calls.Perm order)
      (rest : Ends mishaps ids (next (.ok ())) (s.after order) o s') :
      Ends mishaps ids (.batch calls next) s o s'
  /-- Some calls are answered, in some order, and one of the others is refused. -/
  | someRefused {calls order left c next s o s' e} (perm : calls.Perm (order ++ left))
      (mem : c ∈ left) (mishap : mishaps c (some e))
      (rest : Ends mishaps ids (next (.error e)) (s.after order) o s') :
      Ends mishaps ids (.batch calls next) s o s'
  /-- Some calls are answered, in some order, and one of the others never is. -/
  | someDropped {calls order left c next s} (perm : calls.Perm (order ++ left)) (mem : c ∈ left)
      (mishap : mishaps c none) : Ends mishaps ids (.batch calls next) s none (s.after order)
  | mint {next s o s'}
      (rest : Ends mishaps ids (next (ids s.minted)) { s with minted := s.minted + 1 } o s') :
      Ends mishaps ids (.mint next) s o s'
  | fetch {query next s o s'} (reply : Except Error (Option ν))
      (rest : Ends mishaps ids (next reply) s o s') : Ends mishaps ids (.fetch query next) s o s'

/-- Every plan ends with a result if all its calls are answered. -/
theorem exists_ends (mishaps : Mishaps) (ids : Nat → RecordId) (p : Plan ν α) (s : Snapshot) :
    ∃ result s', p.Ends mishaps ids s (some result) s' := by
  induction p generalizing s with
  | done result => exact ⟨result, s, .done⟩
  | call c next ih =>
    obtain ⟨result, s', rest⟩ := ih (.ok (c.apply s.contents).1) (s.after [c])
    exact ⟨result, s', .answered rest⟩
  | batch calls next ih =>
    obtain ⟨result, s', rest⟩ := ih (.ok ()) (s.after calls)
    exact ⟨result, s', .allAnswered (.refl calls) rest⟩
  | mint next ih =>
    obtain ⟨result, s', rest⟩ := ih (ids s.minted) { s with minted := s.minted + 1 }
    exact ⟨result, s', .mint rest⟩
  | fetch query next ih =>
    obtain ⟨result, s', rest⟩ := ih (.ok none) s
    exact ⟨result, s', .fetch _ rest⟩

/-- Identifiers are minted one after the other. -/
theorem Ends.minted_le {p : Plan ν α} {o : Option (Except Error α)}
    (h : p.Ends mishaps ids s o s') : s.minted ≤ s'.minted := by
  induction h with
  | done | dropped _ | someDropped _ _ _ => exact Nat.le_refl _
  | answered _ ih | refused _ _ ih | allAnswered _ _ ih | someRefused _ _ _ _ ih | fetch _ _ ih =>
    exact ih
  | mint _ ih => exact Nat.le_of_succ_le ih

/-! ### Going on -/

theorem ends_done_iff {result : Except Error α} {o : Option (Except Error α)} :
    (done result : Plan ν α).Ends mishaps ids s o s' ↔ o = some result ∧ s' = s := by
  constructor
  · intro h
    cases h
    exact ⟨rfl, rfl⟩
  · rintro ⟨rfl, rfl⟩
    exact .done

/-- A plan that goes on after another one, whatever the end of that one. -/
theorem ends_recover_iff {p : Plan ν α} {f : Except Error α → Plan ν β}
    {o : Option (Except Error β)} :
    (p.recover f).Ends mishaps ids s o s' ↔
      (∃ result s₁, p.Ends mishaps ids s (some result) s₁ ∧ (f result).Ends mishaps ids s₁ o s') ∨
        p.Ends mishaps ids s none s' ∧ o = none := by
  constructor
  · intro h
    induction p generalizing s with
    | done result => exact .inl ⟨result, s, .done, h⟩
    | call c next ih =>
      cases h with
      | answered rest =>
        exact (ih _ rest).imp (fun ⟨r, s₁, hp, hf⟩ => ⟨r, s₁, .answered hp, hf⟩)
          (fun ⟨hp, ho⟩ => ⟨.answered hp, ho⟩)
      | refused mishap rest =>
        exact (ih _ rest).imp (fun ⟨r, s₁, hp, hf⟩ => ⟨r, s₁, .refused mishap hp, hf⟩)
          (fun ⟨hp, ho⟩ => ⟨.refused mishap hp, ho⟩)
      | dropped mishap => exact .inr ⟨.dropped mishap, rfl⟩
    | batch calls next ih =>
      cases h with
      | allAnswered perm rest =>
        exact (ih _ rest).imp (fun ⟨r, s₁, hp, hf⟩ => ⟨r, s₁, .allAnswered perm hp, hf⟩)
          (fun ⟨hp, ho⟩ => ⟨.allAnswered perm hp, ho⟩)
      | someRefused perm mem mishap rest =>
        exact (ih _ rest).imp
          (fun ⟨r, s₁, hp, hf⟩ => ⟨r, s₁, .someRefused perm mem mishap hp, hf⟩)
          (fun ⟨hp, ho⟩ => ⟨.someRefused perm mem mishap hp, ho⟩)
      | someDropped perm mem mishap => exact .inr ⟨.someDropped perm mem mishap, rfl⟩
    | mint next ih =>
      cases h with
      | mint rest =>
        exact (ih _ rest).imp (fun ⟨r, s₁, hp, hf⟩ => ⟨r, s₁, .mint hp, hf⟩)
          (fun ⟨hp, ho⟩ => ⟨.mint hp, ho⟩)
    | fetch query next ih =>
      cases h with
      | fetch reply rest =>
        exact (ih _ rest).imp (fun ⟨r, s₁, hp, hf⟩ => ⟨r, s₁, .fetch reply hp, hf⟩)
          (fun ⟨hp, ho⟩ => ⟨.fetch reply hp, ho⟩)
  · rintro (⟨result, s₁, hp, hf⟩ | ⟨hp, rfl⟩)
    · generalize hend : some result = end' at hp
      induction hp with
      | done =>
        cases hend
        exact hf
      | answered _ ih => exact .answered (ih hf hend)
      | refused mishap _ ih => exact .refused mishap (ih hf hend)
      | dropped mishap => cases hend
      | allAnswered perm _ ih => exact .allAnswered perm (ih hf hend)
      | someRefused perm mem mishap _ ih => exact .someRefused perm mem mishap (ih hf hend)
      | someDropped perm mem mishap => cases hend
      | mint _ ih => exact .mint (ih hf hend)
      | fetch reply _ ih => exact .fetch reply (ih hf hend)
    · generalize hend : none = end' at hp
      induction hp with
      | done => cases hend
      | answered _ ih => exact .answered (ih hend)
      | refused mishap _ ih => exact .refused mishap (ih hend)
      | dropped mishap => exact .dropped mishap
      | allAnswered perm _ ih => exact .allAnswered perm (ih hend)
      | someRefused perm mem mishap _ ih => exact .someRefused perm mem mishap (ih hend)
      | someDropped perm mem mishap => exact .someDropped perm mem mishap
      | mint _ ih => exact .mint (ih hend)
      | fetch reply _ ih => exact .fetch reply (ih hend)

/-- **A plan that goes on with the result of another one** ends where the other one ends without a
result, or where it ends itself. -/
theorem ends_bind_iff {p : Plan ν α} {f : α → Plan ν β} {o : Option (Except Error β)} :
    (p >>= f).Ends mishaps ids s o s' ↔
      (∃ a s₁, p.Ends mishaps ids s (some (.ok a)) s₁ ∧ (f a).Ends mishaps ids s₁ o s') ∨
        (∃ e, p.Ends mishaps ids s (some (.error e)) s' ∧ o = some (.error e)) ∨
          p.Ends mishaps ids s none s' ∧ o = none := by
  constructor
  · intro h
    rcases ends_recover_iff.1 h with ⟨result, s₁, hp, hf⟩ | ⟨hp, ho⟩
    · cases result with
      | ok a => exact .inl ⟨a, s₁, hp, hf⟩
      | error e =>
        obtain ⟨rfl, rfl⟩ := ends_done_iff.1 hf
        exact .inr (.inl ⟨e, hp, rfl⟩)
    · exact .inr (.inr ⟨hp, ho⟩)
  · rintro (⟨a, s₁, hp, hf⟩ | ⟨e, hp, rfl⟩ | ⟨hp, rfl⟩)
    · exact ends_recover_iff.2 (.inl ⟨.ok a, s₁, hp, hf⟩)
    · exact ends_recover_iff.2 (.inl ⟨.error e, s', hp, .done⟩)
    · exact ends_recover_iff.2 (.inr ⟨hp, rfl⟩)

/-- A plan that goes on with the result of another one and succeeds. -/
theorem Ends.of_bind_ok {p : Plan ν α} {f : α → Plan ν β} {b : β}
    (h : (p >>= f).Ends mishaps ids s (some (.ok b)) s') :
    ∃ a s₁, p.Ends mishaps ids s (some (.ok a)) s₁ ∧
      (f a).Ends mishaps ids s₁ (some (.ok b)) s' := by
  rcases ends_bind_iff.1 h with hok | ⟨e, -, ho⟩ | ⟨-, ho⟩
  · exact hok
  · cases ho
  · cases ho

theorem ends_pure_iff {a : α} {o : Option (Except Error α)} :
    (pure a : Plan ν α).Ends mishaps ids s o s' ↔ o = some (.ok a) ∧ s' = s :=
  ends_done_iff

/-- A plan that can only end with one result and changes nothing does end with it if all its calls
are answered. -/
theorem ends_never_iff {p : Plan ν α} {result : Except Error α}
    (h : ∀ o s', p.Ends .never ids s o s' → o = some result ∧ s' = s)
    {o : Option (Except Error α)} {s' : Snapshot} :
    p.Ends .never ids s o s' ↔ o = some result ∧ s' = s := by
  refine ⟨h o s', ?_⟩
  rintro ⟨rfl, rfl⟩
  obtain ⟨result', s₁, hends⟩ := exists_ends .never ids p s'
  obtain ⟨hresult, rfl⟩ := h _ _ hends
  rwa [hresult] at hends

section Steps

variable {f : α → Plan ν β} {o : Option (Except Error β)}

theorem ends_lift_bind_iff {ε : Type} {wrap : ε → Error} {x : Except ε α} :
    ((lift wrap x : Plan ν α) >>= f).Ends mishaps ids s o s' ↔
      (∃ a, x = .ok a ∧ (f a).Ends mishaps ids s o s') ∨
        ∃ e, x = .error e ∧ o = some (.error (wrap e)) ∧ s' = s := by
  cases x with
  | ok a =>
    constructor
    · exact fun h => .inl ⟨a, rfl, h⟩
    · rintro (⟨_, hx, h⟩ | ⟨_, hx, -⟩)
      · cases hx
        exact h
      · cases hx
  | error e =>
    constructor
    · exact fun h => .inr ⟨e, rfl, ends_done_iff.1 h⟩
    · rintro (⟨_, hx, -⟩ | ⟨_, hx, h⟩)
      · cases hx
      · cases hx
        exact ends_done_iff.2 h

theorem ends_newId_bind_iff {f : RecordId → Plan ν β} :
    ((newId : Plan ν RecordId) >>= f).Ends mishaps ids s o s' ↔
      (f (ids s.minted)).Ends mishaps ids { s with minted := s.minted + 1 } o s' := by
  constructor
  · intro h
    cases h with
    | mint rest => exact rest
  · exact fun h => .mint h

/-! ### Steps on the store -/

/-- **A call** is answered, or goes wrong and changes nothing. -/
theorem ends_call_bind_iff {c : Call} {f : c.Reply → Plan ν β} :
    ((call c (lift .cache) : Plan ν c.Reply) >>= f).Ends mishaps ids s o s' ↔
      (f (c.apply s.contents).1).Ends mishaps ids (s.after [c]) o s' ∨
        mishaps.Stop [c] o ∧ s' = s := by
  constructor
  · intro h
    cases h with
    | answered rest => exact .inl rest
    | refused mishap rest =>
      obtain ⟨rfl, rfl⟩ := ends_done_iff.1 rest
      exact .inr ⟨⟨c, List.mem_singleton_self c, some _, mishap, rfl⟩, rfl⟩
    | dropped mishap => exact .inr ⟨⟨c, List.mem_singleton_self c, none, mishap, rfl⟩, rfl⟩
  · rintro (h | ⟨⟨c', hc', fault, mishap, rfl⟩, rfl⟩)
    · exact .answered h
    · obtain rfl := List.mem_singleton.1 hc'
      cases fault with
      | none => exact .dropped mishap
      | some e => exact .refused mishap .done

/-- Reading answers what the store holds. -/
theorem ends_get_bind_iff {key : String} {f : Option ByteArray → Plan ν β} :
    ((get key : Plan ν _) >>= f).Ends mishaps ids s o s' ↔
      (f (s.contents key)).Ends mishaps ids s o s' ∨ mishaps.Stop [.get key] o ∧ s' = s :=
  ends_call_bind_iff (c := .get key)

/-- Setting changes the value under the key. -/
theorem ends_set_bind_iff {key : String} {value : ByteArray} {f : Unit → Plan ν β} :
    ((set key value : Plan ν _) >>= f).Ends mishaps ids s o s' ↔
      (f ()).Ends mishaps ids
          { s with contents := Function.update s.contents key (some value) } o s' ∨
        mishaps.Stop [.set key value] o ∧ s' = s :=
  ends_call_bind_iff (c := .set key value)

section Batch

variable {keys : List String} {act : String → Call} {value : Option ByteArray}

/-- Some calls that leave one value under their keys leave it under these keys. -/
theorem after_eq_fill (hkey : ∀ key, (act key).key = key)
    (hact : ∀ key m, ((act key).apply m).2 = Function.update m key value) {order : List Call}
    (hsub : order ⊆ keys.map act) :
    s.after order = s.fill (order.map Call.key) value ∧ order.map Call.key ⊆ keys := by
  have hmem : ∀ c ∈ order, c.key ∈ keys ∧ c = act c.key := by
    intro c hc
    obtain ⟨key, hin, rfl⟩ := List.mem_map.1 (hsub hc)
    rw [hkey]
    exact ⟨hin, rfl⟩
  have hvalue : ∀ c ∈ order, ∀ m, (c.apply m).2 = Function.update m c.key value := by
    intro c hc m
    rw [(hmem c hc).2, hact, hkey]
  refine ⟨?_, ?_⟩
  · rw [Snapshot.after, Call.applyAll_eq_fill hvalue]
    rfl
  · intro key hin
    obtain ⟨c, hc, rfl⟩ := List.mem_map.1 hin
    exact (hmem c hc).1

/-- **Calls that run together** and leave one value under their keys leave it under all of them, or
under some if one of the others goes wrong. -/
theorem Ends.of_batch_map {f : Unit → Plan ν β} (hkey : ∀ key, (act key).key = key)
    (hact : ∀ key m, ((act key).apply m).2 = Function.update m key value)
    (h : ((batch (keys.map act) (lift .cache) : Plan ν Unit) >>= f).Ends mishaps ids s o s') :
    (f ()).Ends mishaps ids (s.fill keys value) o s' ∨
      mishaps.Stop (keys.map act) o ∧ ∃ written ⊆ keys, s' = s.fill written value := by
  have some_of_perm {order left : List Call} (perm : (keys.map act).Perm (order ++ left)) :
      ∃ written ⊆ keys, s.after order = s.fill written value := by
    obtain ⟨hafter, hsub⟩ := after_eq_fill (s := s) hkey hact
      (List.append_subset.1 perm.symm.subset).1
    exact ⟨_, hsub, hafter⟩
  cases h with
  | @allAnswered _ order _ _ _ _ perm rest =>
    obtain ⟨hafter, hsub⟩ := after_eq_fill (s := s) hkey hact perm.symm.subset
    have hall : s.fill (order.map Call.key) value = s.fill keys value := by
      have hmem : ∀ key, key ∈ order.map Call.key ↔ key ∈ keys := by
        refine fun key => ⟨fun hin => hsub hin, fun hin => ?_⟩
        rw [← hkey key]
        exact List.mem_map_of_mem (perm.subset (List.mem_map_of_mem hin))
      rw [Snapshot.fill, s.contents.fill_congr value hmem, Snapshot.fill]
    rw [hafter, hall] at rest
    exact .inl rest
  | someRefused perm mem mishap rest =>
    obtain ⟨rfl, rfl⟩ := ends_done_iff.1 rest
    exact .inr ⟨⟨_, perm.symm.subset (List.mem_append_right _ mem), _, mishap, rfl⟩,
      some_of_perm perm⟩
  | someDropped perm mem mishap =>
    exact .inr ⟨⟨_, perm.symm.subset (List.mem_append_right _ mem), _, mishap, rfl⟩,
      some_of_perm perm⟩

/-- Setting one value under several keys sets it under all of them, or under some. -/
theorem Ends.of_setAll {payload : ByteArray} {f : Unit → Plan ν β}
    (h : ((setAll keys payload : Plan ν _) >>= f).Ends mishaps ids s o s') :
    (f ()).Ends mishaps ids (s.fill keys (some payload)) o s' ∨
      mishaps.Stop (keys.map fun key => .set key payload) o ∧
        ∃ written ⊆ keys, s' = s.fill written (some payload) :=
  of_batch_map (fun _ => rfl) (fun _ _ => rfl) h

/-- Removing several entries removes all of them, or some. -/
theorem Ends.of_deleteAll {f : Unit → Plan ν β}
    (h : ((deleteAll keys : Plan ν _) >>= f).Ends mishaps ids s o s') :
    (f ()).Ends mishaps ids (s.fill keys none) o s' ∨
      mishaps.Stop (keys.map .delete) o ∧ ∃ removed ⊆ keys, s' = s.fill removed none :=
  of_batch_map (fun _ => rfl) (fun _ _ => rfl) h

end Batch

end Steps

end Plan

end QueryCache
