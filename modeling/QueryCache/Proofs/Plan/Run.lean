import QueryCache.Plan
import QueryCache.Proofs.Fanout.Log
import QueryCache.Proofs.Store.Contents

/-!
# Plans that succeed

A plan that succeeds has gone through all its steps, and each step has succeeded. What a step on a
lawful store answers and leaves behind is said in terms of what the store holds; steps whose calls
run together leave the same whatever the order of the calls.

## Main definitions

* `World.contents` : what the store of a world holds.
* `Plan.Succeeds` : a plan ends with a result.

## Main results

* `Plan.succeeds_bind_iff` : a plan that goes on with the result of another one.
* `Plan.Succeeds.of_get`, `Plan.Succeeds.of_set`, `Plan.Succeeds.of_setAll`,
  `Plan.Succeeds.of_deleteAll`, `Plan.Succeeds.of_newId` : the steps.
-/

namespace QueryCache

variable {ν α β σ : Type} [CacheStore σ]

section Contents

variable [LawfulStore σ]

/-- What the store of a world holds. -/
def World.contents (w : World σ) : Contents := LawfulStore.contents w.store

/-- Calls that are answered one after the other do to what the store holds what they do to a map. -/
theorem World.Answers.applyAll {order : List Call} {s s' : σ} (h : Answers order s s') :
    LawfulStore.contents s' = Call.applyAll order (LawfulStore.contents s) := by
  induction h with
  | nil => rfl
  | @cons c reply rest s m s' hcall _ ih =>
    have hm : (c.apply (LawfulStore.contents s)).2 = LawfulStore.contents m :=
      congrArg Prod.snd (LawfulStore.call_ok hcall)
    rw [ih, ← hm]
    rfl

end Contents

namespace Plan

variable {env : Environment ν} {w w' : World σ}

/-! ### Going on -/

/-- A plan ends with a result. -/
def Succeeds (env : Environment ν) (p : Plan ν α) (w : World σ) (a : α) (w' : World σ) : Prop :=
  p.run env w = (some (.ok a), w')

theorem run_recover (p : Plan ν α) (f : Except Error α → Plan ν β) :
    (p.recover f).run env w = match p.run env w with
      | (some result, w') => (f result).run env w'
      | (none, w') => (none, w') := by
  induction p generalizing w with
  | done result => rfl
  | call c next ih =>
    rw [recover, run, run]
    cases w.guarded (env.contextAt w.now) c with
    | mk reply w₁ =>
      cases reply with
      | none => rfl
      | some reply => exact ih reply
  | batch calls next ih =>
    rw [recover, run, run]
    cases w.guardedAll (env.contextAt w.now) calls with
    | mk reply w₁ =>
      cases reply with
      | none => rfl
      | some reply => exact ih reply
  | mint next ih => exact ih _
  | fetch query next ih => exact ih _

/-- **A plan that goes on with the result of another one** succeeds if both do. -/
theorem succeeds_bind_iff {p : Plan ν α} {f : α → Plan ν β} {b : β} :
    (p >>= f).Succeeds env w b w' ↔
      ∃ a w₁, p.Succeeds env w a w₁ ∧ (f a).Succeeds env w₁ b w' := by
  have hrun : (p >>= f).run env w = _ := run_recover p _
  rw [Succeeds, hrun]
  cases hp : p.run env w with
  | mk result w₁ =>
    rcases result with - | e | a
    · simp [Succeeds, hp]
    · simp [Succeeds, hp, run]
    · simp [Succeeds, hp]

theorem succeeds_pure_iff {a b : α} :
    (pure a : Plan ν α).Succeeds env w b w' ↔ a = b ∧ w = w' := by
  simp [Succeeds, pure, run]

theorem succeeds_lift_iff {ε : Type} {wrap : ε → Error} {x : Except ε α} {a : α} :
    (lift wrap x : Plan ν α).Succeeds env w a w' ↔ x = .ok a ∧ w = w' := by
  cases x <;> simp [Succeeds, lift, run]

/-- A new identifier is the next one. -/
theorem Succeeds.of_newId {id : RecordId} (h : (newId : Plan ν RecordId).Succeeds env w id w') :
    id = env.ids w.minted ∧ w' = { w with minted := w.minted + 1 } := by
  cases h
  exact ⟨rfl, rfl⟩

/-! ### Steps on the store -/

/-- Calls that run together are answered one after the other. -/
theorem Succeeds.of_batch {calls : List Call} {u : Unit}
    (h : (batch calls (lift .cache) : Plan ν Unit).Succeeds env w u w') :
    (∃ order : List Call, order.Perm calls ∧ World.Answers order w.store w'.store) ∧
      w.SameCounts w' := by
  rw [Succeeds, run] at h
  cases hcalls : w.guardedAll (env.contextAt w.now) calls with
  | mk answer w₁ =>
    rcases answer with - | e | reply
    · simp [hcalls] at h
    · simp [hcalls, lift, run] at h
    · simp only [hcalls, lift, run, Prod.mk.injEq, true_and] at h
      obtain ⟨-, rfl⟩ := h
      exact World.guardedAll_ok hcalls

/-- A single call is answered by the store. -/
theorem Succeeds.call_eq {c : Call} {reply : c.Reply}
    (h : (call c (lift .cache) : Plan ν c.Reply).Succeeds env w reply w') :
    CacheStore.call c w.store = (.ok reply, w'.store) ∧ w.SameCounts w' := by
  rw [Succeeds, run] at h
  cases hcall : w.guarded (env.contextAt w.now) c with
  | mk answer w₁ =>
    rcases answer with - | e | reply'
    · simp [hcall] at h
    · simp [hcall, lift, run] at h
    · simp only [hcall, lift, run, Prod.mk.injEq, Option.some.injEq, Except.ok.injEq] at h
      obtain ⟨rfl, rfl⟩ := h
      exact World.guarded_ok hcall

variable [LawfulStore σ]

theorem Succeeds.of_call {c : Call} {reply : c.Reply}
    (h : (call c (lift .cache) : Plan ν c.Reply).Succeeds env w reply w') :
    c.apply w.contents = (reply, w'.contents) ∧ w.SameCounts w' :=
  h.call_eq.imp_left LawfulStore.call_ok

/-- Reading answers what the store holds and changes nothing. -/
theorem Succeeds.of_get {key : String} {reply : Option ByteArray}
    (h : (get key : Plan ν _).Succeeds env w reply w') :
    reply = w.contents key ∧ w'.contents = w.contents ∧ w.SameCounts w' := by
  obtain ⟨happly, hcounts⟩ := of_call h
  obtain ⟨hreply, hcontents⟩ := Prod.mk.inj happly
  exact ⟨hreply.symm, hcontents.symm, hcounts⟩

/-- Setting changes the value under the key. -/
theorem Succeeds.of_set {key : String} {value : ByteArray} {u : Unit}
    (h : (set key value : Plan ν _).Succeeds env w u w') :
    w'.contents = Function.update w.contents key (some value) ∧ w.SameCounts w' := by
  obtain ⟨happly, hcounts⟩ := of_call h
  exact ⟨(Prod.mk.inj happly).2.symm, hcounts⟩

/-- Steps that run together and leave one value under their keys. -/
theorem Succeeds.of_batch_map {keys : List String} {act : String → Call}
    {value : Option ByteArray} {u : Unit} (hkey : ∀ key, (act key).key = key)
    (hact : ∀ key m, ((act key).apply m).2 = Function.update m key value)
    (h : (batch (keys.map act) (lift .cache) : Plan ν Unit).Succeeds env w u w') :
    (∀ key, w'.contents key = if key ∈ keys then value else w.contents key) ∧
      w.SameCounts w' := by
  obtain ⟨⟨order, hperm, hanswers⟩, hcounts⟩ := of_batch h
  refine ⟨fun key => ?_, hcounts⟩
  have hkeys : (order.map Call.key).Perm keys := by
    have hcomp : Call.key ∘ act = id := funext hkey
    have hmap := hperm.map Call.key
    rwa [List.map_map, hcomp, List.map_id] at hmap
  have hvalue : ∀ c ∈ order, ∀ m, (c.apply m).2 = Function.update m c.key value := by
    intro c hc m
    obtain ⟨k, -, rfl⟩ := List.mem_map.1 (hperm.mem_iff.1 hc)
    rw [hact, hkey]
  have hcontents := congrFun (hanswers.applyAll.trans (Call.applyAll_eq_fill hvalue _)) key
  simp only [Contents.fill, hkeys.mem_iff] at hcontents
  exact hcontents

/-- Setting one value under several keys changes the values under these keys. -/
theorem Succeeds.of_setAll {keys : List String} {value : ByteArray} {u : Unit}
    (h : (setAll keys value : Plan ν _).Succeeds env w u w') :
    (∀ key, w'.contents key = if key ∈ keys then some value else w.contents key) ∧
      w.SameCounts w' :=
  of_batch_map (fun _ => rfl) (fun _ _ => rfl) h

/-- Removing several entries leaves nothing under their keys. -/
theorem Succeeds.of_deleteAll {keys : List String} {u : Unit}
    (h : (deleteAll keys : Plan ν _).Succeeds env w u w') :
    (∀ key, w'.contents key = if key ∈ keys then none else w.contents key) ∧
      w.SameCounts w' :=
  of_batch_map (fun _ => rfl) (fun _ _ => rfl) h

end Plan

end QueryCache
