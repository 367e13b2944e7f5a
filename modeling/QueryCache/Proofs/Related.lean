import Mathlib.Data.List.Forall2

/-!
# Lists related member by member

What is done to each child of a node, each part of a step or each action of a run is stated for the
lists as a whole by `List.Forall₂`.

## Main results

* `exists_forall₂`, `exists_forall₂_and`, `exists_forall₂_pair` : related lists from members that
  are each related to something.
* `forall₂_comp_iff` : lists related through a list between them.
* `all_eq_of_forall₂`, `any_eq_of_forall₂` : lists whose members have the same truth values.
* `mapM_eq_ok_iff`, `mapM_eq_error_iff` : results of calls made one after the other, and the first
  failure.
-/

namespace QueryCache

/-- Related lists whose members are related in another way, given where the first ones are from. -/
theorem forall₂_imp_of_mem {α β : Type} {R S : α → β → Prop} {as : List α} {bs : List β}
    (h : List.Forall₂ R as bs) (hRS : ∀ a ∈ as, ∀ b, R a b → S a b) : List.Forall₂ S as bs := by
  have hmem : List.Forall₂ (fun a b => a ∈ as ∧ R a b) as bs :=
    (List.forall₂_and_left _ _).2 ⟨fun _ ha => ha, h⟩
  exact hmem.imp fun a b hab => hRS a hab.1 b hab.2

/-- A member of the second list is related to one of the first. -/
theorem exists_mem_of_forall₂ {α β : Type} {R : α → β → Prop} {as : List α} {bs : List β}
    (h : List.Forall₂ R as bs) {b : β} (hb : b ∈ bs) : ∃ a ∈ as, R a b := by
  induction h with
  | nil => cases hb
  | @cons a _ _ _ hab _ ih =>
    rcases List.mem_cons.1 hb with rfl | hrest
    · exact ⟨a, List.mem_cons_self, hab⟩
    · obtain ⟨a', ha', hab'⟩ := ih hrest
      exact ⟨a', List.mem_cons_of_mem _ ha', hab'⟩

/-- Members that are each related to something are together related to a list. -/
theorem exists_forall₂ {α β : Type} {R : α → β → Prop} {as : List α} (h : ∀ a ∈ as, ∃ b, R a b) :
    ∃ bs, List.Forall₂ R as bs := by
  induction as with
  | nil => exact ⟨[], .nil⟩
  | cons a rest ih =>
    obtain ⟨b, hab⟩ := h a List.mem_cons_self
    obtain ⟨bs, hbs⟩ := ih fun x hx => h x (List.mem_cons_of_mem a hx)
    exact ⟨b :: bs, .cons hab hbs⟩

/-- Members that are each related to something in two ways are so together. -/
theorem exists_forall₂_and {α β : Type} {R S : α → β → Prop} {as : List α}
    (h : ∀ a ∈ as, ∃ b, R a b ∧ S a b) : ∃ bs, List.Forall₂ R as bs ∧ List.Forall₂ S as bs := by
  obtain ⟨bs, hbs⟩ := exists_forall₂ h
  exact ⟨bs, hbs.imp fun _ _ hab => hab.1, hbs.imp fun _ _ hab => hab.2⟩

/-- Members that each have two related counterparts have two lists of them. -/
theorem exists_forall₂_pair {α β γ : Type} {P : α → β → Prop} {Q : α → γ → Prop} {R : β → γ → Prop}
    {as : List α} (h : ∀ a ∈ as, ∃ b c, P a b ∧ Q a c ∧ R b c) :
    ∃ bs cs, List.Forall₂ P as bs ∧ List.Forall₂ Q as cs ∧ List.Forall₂ R bs cs := by
  induction as with
  | nil => exact ⟨[], [], .nil, .nil, .nil⟩
  | cons a rest ih =>
    obtain ⟨b, c, hab, hac, hbc⟩ := h a List.mem_cons_self
    obtain ⟨bs, cs, hbs, hcs, hall⟩ := ih fun x hx => h x (List.mem_cons_of_mem a hx)
    exact ⟨b :: bs, c :: cs, .cons hab hbs, .cons hac hcs, .cons hbc hall⟩

/-- Lists related through members between them are related through a list between them. -/
theorem forall₂_comp_iff {α β γ : Type} {R : α → β → Prop} {S : β → γ → Prop} {as : List α}
    {cs : List γ} : List.Forall₂ (fun a c => ∃ b, R a b ∧ S b c) as cs ↔
      ∃ bs, List.Forall₂ R as bs ∧ List.Forall₂ S bs cs := by
  constructor
  · intro h
    induction h with
    | nil => exact ⟨[], .nil, .nil⟩
    | cons hac _ ih =>
      obtain ⟨b, hab, hbc⟩ := hac
      obtain ⟨bs, has, hcs⟩ := ih
      exact ⟨b :: bs, .cons hab has, .cons hbc hcs⟩
  · rintro ⟨bs, has, hcs⟩
    induction has generalizing cs with
    | nil =>
      cases hcs
      exact .nil
    | cons hab _ ih =>
      cases hcs with
      | cons hbc hrest => exact .cons ⟨_, hab, hbc⟩ (ih hrest)

/-- Lists whose members have the same truth values are both all true or both not. -/
theorem all_eq_of_forall₂ {α β : Type} {f : α → Bool} {g : β → Bool} {as : List α} {bs : List β}
    (h : List.Forall₂ (fun a b => f a = g b) as bs) : as.all f = bs.all g := by
  induction h with
  | nil => rfl
  | cons hab _ ih => rw [List.all_cons, List.all_cons, hab, ih]

/-- Lists whose members have the same truth values both have a true one or both have none. -/
theorem any_eq_of_forall₂ {α β : Type} {f : α → Bool} {g : β → Bool} {as : List α} {bs : List β}
    (h : List.Forall₂ (fun a b => f a = g b) as bs) : as.any f = bs.any g := by
  induction h with
  | nil => rfl
  | cons hab _ ih => rw [List.any_cons, List.any_cons, hab, ih]

/-- Calls one after the other give results exactly if each gives its own. -/
theorem mapM_eq_ok_iff {α β ε : Type} {f : α → Except ε β} {as : List α} {bs : List β} :
    as.mapM f = .ok bs ↔ List.Forall₂ (fun a b => f a = .ok b) as bs := by
  induction as generalizing bs with
  | nil =>
    rw [List.mapM_nil, List.forall₂_nil_left_iff]
    exact ⟨fun h => (Except.ok.inj h).symm, fun h => h ▸ rfl⟩
  | cons a rest ih =>
    rw [List.mapM_cons, List.forall₂_cons_left_iff]
    constructor
    · intro h
      cases ha : f a with
      | error e => simp [ha, bind, Except.bind] at h
      | ok b =>
        cases hrest : rest.mapM f with
        | error e => simp [ha, hrest, bind, Except.bind] at h
        | ok others =>
          simp only [ha, hrest, bind, Except.bind, pure, Except.pure, Except.ok.injEq] at h
          exact ⟨b, others, rfl, ih.1 hrest, h.symm⟩
    · rintro ⟨b, others, ha, hrest, rfl⟩
      rw [ha, ih.2 hrest]
      rfl

/-- Calls one after the other fail with the failure of the first one that gives no result. -/
theorem mapM_eq_error_iff {α β ε : Type} {f : α → Except ε β} {as : List α} {e : ε} :
    as.mapM f = .error e ↔ ∃ before a after, as = before ++ a :: after ∧
      (∀ b ∈ before, ∃ result, f b = .ok result) ∧ f a = .error e := by
  induction as with
  | nil =>
    rw [List.mapM_nil]
    exact ⟨nofun, fun ⟨before, a, after, hsplit, _⟩ => by simp at hsplit⟩
  | cons a rest ih =>
    rw [List.mapM_cons]
    cases ha : f a with
    | error e' =>
      constructor
      · intro h
        cases h
        exact ⟨[], a, rest, rfl, nofun, ha⟩
      · rintro ⟨before, b, after, hsplit, hbefore, hb⟩
        cases before with
        | nil =>
          cases hsplit
          exact congrArg Except.error (Except.error.inj (ha.symm.trans hb))
        | cons c others =>
          cases hsplit
          obtain ⟨result, hresult⟩ := hbefore a List.mem_cons_self
          cases ha.symm.trans hresult
    | ok first =>
      have hrest : (do let others ← rest.mapM f; pure (first :: others)) = .error e ↔
          rest.mapM f = .error e := by
        cases rest.mapM f with
        | ok others => exact ⟨nofun, nofun⟩
        | error e' =>
          exact ⟨fun h => congrArg Except.error (Except.error.inj h),
            fun h => congrArg Except.error (Except.error.inj h)⟩
      refine hrest.trans (ih.trans ⟨?_, ?_⟩)
      · rintro ⟨before, b, after, rfl, hbefore, hb⟩
        exact ⟨a :: before, b, after, rfl, List.forall_mem_cons.2 ⟨⟨first, ha⟩, hbefore⟩, hb⟩
      · rintro ⟨before, b, after, hsplit, hbefore, hb⟩
        cases before with
        | nil =>
          cases hsplit
          cases ha.symm.trans hb
        | cons c others =>
          cases hsplit
          exact ⟨others, b, after, rfl, (List.forall_mem_cons.1 hbefore).2, hb⟩

/-- Look-ups one after the other find values exactly if each finds its own. -/
theorem mapM_eq_some_iff {α β : Type} {f : α → Option β} {as : List α} {bs : List β} :
    as.mapM f = some bs ↔ List.Forall₂ (fun a b => f a = some b) as bs := by
  induction as generalizing bs with
  | nil =>
    rw [List.mapM_nil, List.forall₂_nil_left_iff]
    exact ⟨fun h => (Option.some.inj h).symm, fun h => h ▸ rfl⟩
  | cons a rest ih =>
    rw [List.mapM_cons, List.forall₂_cons_left_iff]
    simp only [Option.bind_eq_bind, Option.bind_eq_some_iff, Option.pure_def, Option.some.injEq, ih]
    exact ⟨fun ⟨b, ha, others, hrest, hbs⟩ => ⟨b, others, ha, hrest, hbs.symm⟩,
      fun ⟨b, others, ha, hrest, hbs⟩ => ⟨b, ha, others, hrest, hbs.symm⟩⟩

end QueryCache
