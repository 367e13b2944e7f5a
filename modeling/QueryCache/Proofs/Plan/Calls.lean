import QueryCache.Proofs.Plan.Ends

/-!
# The calls of a plan

Which calls a plan makes depends on the replies to those before. A plan changes nothing but what is
under the keys of its calls, and nothing but this has an influence on how it ends.

## Main definitions

* `Plan.Makes` : the calls that a plan may make, started with what a store holds.

## Main results

* `Plan.Makes.of_bind` : the calls of a plan that goes on with the result of another one.
* `Plan.Ends.eq_of_notCalled` : a plan changes nothing under other keys.
* `Plan.Ends.exists_of_agree` : a plan ends alike if the same is under the keys of its calls.
-/

namespace QueryCache

/-! ### One call -/

namespace Call

variable {c : Call} {calls : List Call} {m m' : Contents} {key : String}

theorem apply_of_ne (h : c.key ≠ key) : (c.apply m).2 key = m key := by
  cases c with
  | get other => rfl
  | set other value => exact Function.update_of_ne h.symm _ _
  | delete other => exact Function.update_of_ne h.symm _ _

theorem applyAll_of_ne (h : ∀ c ∈ calls, c.key ≠ key) : applyAll calls m key = m key := by
  induction calls generalizing m with
  | nil => rfl
  | cons c rest ih =>
    obtain ⟨hc, hrest⟩ := List.forall_mem_cons.1 h
    exact (ih hrest).trans (apply_of_ne hc)

/-- The reply to a call depends on what is under its key. -/
theorem reply_congr (h : m c.key = m' c.key) : (c.apply m).1 = (c.apply m').1 := by
  cases c with
  | get other => exact h
  | set other value => rfl
  | delete other => exact congrArg Option.isSome h

theorem apply_congr (h : m key = m' key) : (c.apply m).2 key = (c.apply m').2 key := by
  cases c with
  | get other => exact h
  | set other value => simp only [apply, Function.update_apply, h]
  | delete other => simp only [apply, Function.update_apply, h]

theorem applyAll_congr (h : m key = m' key) : applyAll calls m key = applyAll calls m' key := by
  induction calls generalizing m m' with
  | nil => exact h
  | cons c rest ih => exact ih (apply_congr h)

end Call

namespace Plan

variable {ν α β : Type} {mishaps : Mishaps} {ids : Nat → RecordId} {s s' : Snapshot} {c : Call}

/-- The calls that a plan may make, started with what a store holds. -/
inductive Makes (mishaps : Mishaps) (ids : Nat → RecordId) : Plan ν α → Snapshot → Call → Prop
  | call {c next s} : Makes mishaps ids (.call c next) s c
  | answered {c next s c'}
      (rest : Makes mishaps ids (next (.ok (c.apply s.contents).1)) (s.after [c]) c') :
      Makes mishaps ids (.call c next) s c'
  | refused {c next s e c'} (mishap : mishaps c (some e))
      (rest : Makes mishaps ids (next (.error e)) s c') : Makes mishaps ids (.call c next) s c'
  | batch {calls next s c} (mem : c ∈ calls) : Makes mishaps ids (.batch calls next) s c
  | allAnswered {calls order next s c'} (perm : calls.Perm order)
      (rest : Makes mishaps ids (next (.ok ())) (s.after order) c') :
      Makes mishaps ids (.batch calls next) s c'
  | someRefused {calls order left c next s e c'} (perm : calls.Perm (order ++ left))
      (mem : c ∈ left) (mishap : mishaps c (some e))
      (rest : Makes mishaps ids (next (.error e)) (s.after order) c') :
      Makes mishaps ids (.batch calls next) s c'
  | mint {next s c}
      (rest : Makes mishaps ids (next (ids s.minted)) { s with minted := s.minted + 1 } c) :
      Makes mishaps ids (.mint next) s c
  | fetch {query next s c} (reply : Except Error (Option ν))
      (rest : Makes mishaps ids (next reply) s c) : Makes mishaps ids (.fetch query next) s c

/-! ### The calls of each step -/

theorem not_makes_done {result : Except Error α} :
    ¬ (done result : Plan ν α).Makes mishaps ids s c := by
  rintro ⟨⟩

theorem not_makes_lift {ε : Type} {wrap : ε → Error} {x : Except ε α} :
    ¬ (lift wrap x : Plan ν α).Makes mishaps ids s c := by
  cases x <;> exact not_makes_done

/-- The calls of a plan that goes on after another one: those of either. -/
theorem Makes.of_recover {p : Plan ν α} {f : Except Error α → Plan ν β}
    (h : (p.recover f).Makes mishaps ids s c) : p.Makes mishaps ids s c ∨
      ∃ result s₁, p.Ends mishaps ids s (some result) s₁ ∧ (f result).Makes mishaps ids s₁ c := by
  induction p generalizing s with
  | done result => exact .inr ⟨result, s, .done, h⟩
  | call c next ih =>
    cases h with
    | call => exact .inl .call
    | answered rest =>
      exact (ih _ rest).imp .answered fun ⟨r, s₁, hp, hf⟩ => ⟨r, s₁, .answered hp, hf⟩
    | refused mishap rest =>
      exact (ih _ rest).imp (.refused mishap) fun ⟨r, s₁, hp, hf⟩ =>
        ⟨r, s₁, .refused mishap hp, hf⟩
  | batch calls next ih =>
    cases h with
    | batch mem => exact .inl (.batch mem)
    | allAnswered perm rest =>
      exact (ih _ rest).imp (.allAnswered perm) fun ⟨r, s₁, hp, hf⟩ =>
        ⟨r, s₁, .allAnswered perm hp, hf⟩
    | someRefused perm mem mishap rest =>
      exact (ih _ rest).imp (.someRefused perm mem mishap) fun ⟨r, s₁, hp, hf⟩ =>
        ⟨r, s₁, .someRefused perm mem mishap hp, hf⟩
  | mint next ih =>
    cases h with
    | mint rest => exact (ih _ rest).imp .mint fun ⟨r, s₁, hp, hf⟩ => ⟨r, s₁, .mint hp, hf⟩
  | fetch query next ih =>
    cases h with
    | fetch reply rest =>
      exact (ih _ rest).imp (.fetch reply) fun ⟨r, s₁, hp, hf⟩ => ⟨r, s₁, .fetch reply hp, hf⟩

/-- **The calls of a plan that goes on with the result of another one**: those of either. -/
theorem Makes.of_bind {p : Plan ν α} {f : α → Plan ν β} (h : (p >>= f).Makes mishaps ids s c) :
    p.Makes mishaps ids s c ∨
      ∃ a s₁, p.Ends mishaps ids s (some (.ok a)) s₁ ∧ (f a).Makes mishaps ids s₁ c := by
  rcases Makes.of_recover h with hp | ⟨result, s₁, hp, hf⟩
  · exact .inl hp
  · cases result with
    | ok a => exact .inr ⟨a, s₁, hp, hf⟩
    | error e => exact (not_makes_done hf).elim

section Steps

variable {f : α → Plan ν β}

theorem Makes.of_lift_bind {ε : Type} {wrap : ε → Error} {x : Except ε α}
    (h : ((lift wrap x : Plan ν α) >>= f).Makes mishaps ids s c) :
    ∃ a, x = .ok a ∧ (f a).Makes mishaps ids s c := by
  cases x with
  | ok a => exact ⟨a, rfl, h⟩
  | error e => exact (not_makes_done h).elim

theorem Makes.of_newId_bind {f : RecordId → Plan ν β}
    (h : ((newId : Plan ν RecordId) >>= f).Makes mishaps ids s c) :
    (f (ids s.minted)).Makes mishaps ids { s with minted := s.minted + 1 } c := by
  cases h with
  | mint rest => exact rest

/-- A call, and the calls after it once it is answered. -/
theorem Makes.of_call_bind {c₁ : Call} {f : c₁.Reply → Plan ν β}
    (h : ((Plan.call c₁ (lift .cache) : Plan ν c₁.Reply) >>= f).Makes mishaps ids s c) :
    c = c₁ ∨ (f (c₁.apply s.contents).1).Makes mishaps ids (s.after [c₁]) c := by
  cases h with
  | call => exact .inl rfl
  | answered rest => exact .inr rest
  | refused mishap rest => exact (not_makes_done rest).elim

theorem Makes.of_get_bind {key : String} {f : Option ByteArray → Plan ν β}
    (h : ((get key : Plan ν _) >>= f).Makes mishaps ids s c) :
    c = .get key ∨ (f (s.contents key)).Makes mishaps ids s c :=
  Makes.of_call_bind h

theorem Makes.of_set_bind {key : String} {value : ByteArray} {f : Unit → Plan ν β}
    (h : ((set key value : Plan ν _) >>= f).Makes mishaps ids s c) :
    c = .set key value ∨ (f ()).Makes mishaps ids (s.after [.set key value]) c :=
  Makes.of_call_bind h

/-- Calls that run together, and the calls after them once all are answered. -/
theorem Makes.of_batch_bind {calls : List Call} {f : Unit → Plan ν β}
    (h : ((Plan.batch calls (lift .cache) : Plan ν Unit) >>= f).Makes mishaps ids s c) :
    c ∈ calls ∨ ∃ order, (f ()).Makes mishaps ids (s.after order) c := by
  cases h with
  | batch mem => exact .inl mem
  | allAnswered perm rest => exact .inr ⟨_, rest⟩
  | someRefused perm mem mishap rest => exact (not_makes_done rest).elim

end Steps

/-! ### What calls have to do with ends -/

variable {p : Plan ν α} {o : Option (Except Error α)}

/-- **A plan changes nothing under keys that it does not call.** -/
theorem Ends.eq_of_notCalled {key : String} (h : p.Ends mishaps ids s o s')
    (hkey : ∀ c, p.Makes mishaps ids s c → c.key ≠ key) : s'.contents key = s.contents key := by
  induction h with
  | done => rfl
  | answered rest ih =>
    exact (ih fun c hc => hkey c (.answered hc)).trans (Call.apply_of_ne (hkey _ .call))
  | refused mishap rest ih => exact ih fun c hc => hkey c (.refused mishap hc)
  | dropped mishap => rfl
  | allAnswered perm rest ih =>
    exact (ih fun c hc => hkey c (.allAnswered perm hc)).trans
      (Call.applyAll_of_ne fun c hc => hkey c (.batch (perm.symm.subset hc)))
  | someRefused perm mem mishap rest ih =>
    exact (ih fun c hc => hkey c (.someRefused perm mem mishap hc)).trans
      (Call.applyAll_of_ne fun c hc =>
        hkey c (.batch (perm.symm.subset (List.mem_append_left _ hc))))
  | someDropped perm mem mishap =>
    exact Call.applyAll_of_ne fun c hc =>
      hkey c (.batch (perm.symm.subset (List.mem_append_left _ hc)))
  | mint rest ih => exact ih fun c hc => hkey c (.mint hc)
  | fetch reply rest ih => exact ih fun c hc => hkey c (.fetch reply hc)

/-- **A plan ends alike if the same is under the keys that it calls**, and leaves the same where the
same was before. -/
theorem Ends.exists_of_agree {t : Snapshot} (h : p.Ends mishaps ids s o s')
    (hminted : t.minted = s.minted)
    (hagree : ∀ c, p.Makes mishaps ids s c → t.contents c.key = s.contents c.key) :
    ∃ t', p.Ends mishaps ids t o t' ∧ t'.minted = s'.minted ∧
      ∀ key, t.contents key = s.contents key → t'.contents key = s'.contents key := by
  induction h generalizing t with
  | done => exact ⟨t, .done, hminted, fun key hkey => hkey⟩
  | @answered c next s o s' rest ih =>
    obtain ⟨t', hends, hminted', hsame⟩ := ih (t := t.after [c]) hminted
      fun c' hc' => Call.apply_congr (hagree c' (.answered hc'))
    rw [← Call.reply_congr (hagree c .call)] at hends
    exact ⟨t', .answered hends, hminted', fun key hkey => hsame key (Call.apply_congr hkey)⟩
  | refused mishap rest ih =>
    obtain ⟨t', hends, hminted', hsame⟩ := ih hminted fun c hc => hagree c (.refused mishap hc)
    exact ⟨t', .refused mishap hends, hminted', hsame⟩
  | dropped mishap => exact ⟨t, .dropped mishap, hminted, fun key hkey => hkey⟩
  | @allAnswered calls order next s o s' perm rest ih =>
    obtain ⟨t', hends, hminted', hsame⟩ := ih (t := t.after order) hminted
      fun c hc => Call.applyAll_congr (hagree c (.allAnswered perm hc))
    exact ⟨t', .allAnswered perm hends, hminted',
      fun key hkey => hsame key (Call.applyAll_congr hkey)⟩
  | @someRefused calls order left c next s o s' e perm mem mishap rest ih =>
    obtain ⟨t', hends, hminted', hsame⟩ := ih (t := t.after order) hminted
      fun c hc => Call.applyAll_congr (hagree c (.someRefused perm mem mishap hc))
    exact ⟨t', .someRefused perm mem mishap hends, hminted',
      fun key hkey => hsame key (Call.applyAll_congr hkey)⟩
  | @someDropped calls order left c next s perm mem mishap =>
    exact ⟨t.after order, .someDropped perm mem mishap, hminted,
      fun key hkey => Call.applyAll_congr hkey⟩
  | @mint next s o s' rest ih =>
    obtain ⟨t', hends, hminted', hsame⟩ := ih (t := { t with minted := t.minted + 1 })
      (congrArg (· + 1) hminted) fun c hc => hagree c (.mint hc)
    rw [← hminted] at hends
    exact ⟨t', .mint hends, hminted', hsame⟩
  | fetch reply rest ih =>
    obtain ⟨t', hends, hminted', hsame⟩ := ih hminted fun c hc => hagree c (.fetch reply hc)
    exact ⟨t', .fetch reply hends, hminted', hsame⟩

end Plan

end QueryCache
