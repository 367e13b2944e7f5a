import QueryCache.Proofs.Gate.Units

/-!
# A line at the gate

If everybody asks for one unit, the gate is a line: the first have a unit, as many as there are
units, and the others wait. Whoever asks stands at the end of the line, and when the first one
leaves, the unit goes to the first of those who wait.

## Main definitions

* `Gate.serving` : the gate with a line of tickets.
* `Gate.Vacant` : a gate that nobody uses.

## Main results

* `Gate.acquire_serving`, `Gate.drop_serving` : asking and leaving.
-/

namespace QueryCache

/-- The permit for one unit. -/
def Permit.one (ticket : Nat) : Permit := ⟨ticket, 1⟩

/-- A request for one unit that waits. -/
def Waiter.one (ticket : Nat) : Waiter := ⟨ticket, 1, 0⟩

namespace Gate

/-- An open gate with a line of tickets that each ask for one unit. -/
def serving (capacity : Nat) (line : List Nat) : Gate where
  capacity := capacity
  free := capacity - line.length
  queue := (line.drop capacity).map Waiter.one
  permits := (line.take capacity).map Permit.one
  closed := false

variable {capacity ticket : Nat} {line : List Nat} {g : Gate}

/-- A gate that is open and has units, and that nobody uses. -/
structure Vacant (g : Gate) : Prop where
  idle : g.Idle
  isOpen : g.closed = false
  one_le_capacity : 1 ≤ g.capacity

/-- A vacant gate has an empty line. -/
theorem Vacant.eq_serving (h : g.Vacant) : g = serving g.capacity [] := by
  obtain ⟨capacity, free, queue, permits, closed⟩ := g
  obtain ⟨⟨hpermits, hqueue, hfree⟩, hopen, -⟩ := h
  cases hpermits
  cases hqueue
  cases hopen
  have hfree' : free = capacity := hfree
  simp [serving, hfree']

/-- Whoever comes to a vacant gate and has gone leaves it as it was. -/
theorem Vacant.eq_of_moves {asked : Nat → Nat} {g' : Gate} (h : g.Vacant)
    (hmoves : g.Moves asked [] g') : g' = g := by
  have hvacant : g'.Vacant := by
    refine ⟨hmoves.idle h.idle, hmoves.closed.trans h.isOpen, ?_⟩
    rw [hmoves.capacity]
    exact h.one_le_capacity
  calc g' = serving g'.capacity [] := hvacant.eq_serving
    _ = serving g.capacity [] := by rw [hmoves.capacity]
    _ = g := h.eq_serving.symm

/-- The first of the line have a unit. -/
theorem holds_serving_iff :
    (serving capacity line).holds ticket = true ↔ ticket ∈ line.take capacity := by
  rw [holds_iff, serving, List.map_map]
  exact iff_of_eq (congrArg (ticket ∈ ·) (List.map_id _))

/-- The others wait. -/
theorem waits_serving_iff :
    (serving capacity line).waits ticket = true ↔ ticket ∈ line.drop capacity := by
  rw [waits_iff, serving, List.map_map]
  exact iff_of_eq (congrArg (ticket ∈ ·) (List.map_id _))

/-- The last one of the line has a unit if there is one more than others stand in the line. -/
theorem holds_serving_last (hnot : ticket ∉ line) :
    (serving capacity (line ++ [ticket])).holds ticket = true ↔ line.length < capacity := by
  rw [holds_serving_iff, List.take_append, List.mem_append]
  constructor
  · rintro (hmem | hmem)
    · exact (hnot (List.mem_of_mem_take hmem)).elim
    · by_contra hfull
      rw [Nat.sub_eq_zero_of_le (Nat.le_of_not_lt hfull)] at hmem
      cases hmem
  · intro hroom
    obtain ⟨more, hmore⟩ := Nat.exists_eq_succ_of_ne_zero (Nat.sub_ne_zero_of_lt hroom)
    rw [hmore]
    exact .inr List.mem_cons_self

/-- The last one of the line waits if others have all units. -/
theorem waits_serving_last (hfull : capacity ≤ line.length) :
    (serving capacity (line ++ [ticket])).waits ticket = true := by
  rw [waits_serving_iff, List.drop_append_of_le_length hfull]
  exact List.mem_append_right _ (List.mem_singleton_self _)

/-- **Whoever asks** stands at the end of the line. -/
theorem acquire_serving (capacity ticket : Nat) (line : List Nat) :
    (serving capacity line).acquire ticket 1 = serving capacity (line ++ [ticket]) := by
  have hweight : (serving capacity line).clampWeight 1 = 1 := clampWeight_one _
  have hfree : (serving capacity line).free = capacity - line.length := rfl
  rcases (serving capacity line).acquire_cases ticket 1 with
    ⟨hclosed, -⟩ | ⟨-, henough, hg⟩ | ⟨-, hshort, hg⟩
  · cases hclosed
  · rw [hweight, hfree] at henough
    have htake : (line ++ [ticket]).take capacity = line.take capacity ++ [ticket] := by
      rw [List.take_of_length_le (by simp; omega), List.take_of_length_le (by omega)]
    have hdrop : (line ++ [ticket]).drop capacity = line.drop capacity := by
      rw [List.drop_of_length_le (by simp; omega), List.drop_of_length_le (by omega)]
    rw [hg, hweight]
    simp [serving, htake, hdrop, Permit.one, Nat.sub_sub]
  · rw [hweight, hfree] at hshort
    have hlength : capacity ≤ line.length := by omega
    rw [hg, hweight, hfree]
    simp [serving, List.take_append_of_le_length hlength, List.drop_append_of_le_length hlength,
      Waiter.one]
    omega

/-- A line that gets nothing stays as it is. -/
theorem serve_zero (line : List Nat) :
    serve 0 (line.map Waiter.one) = ([], line.map Waiter.one, 0) := by
  cases line <;> rfl

/-- A unit goes to the first of a line. -/
theorem serve_one (line : List Nat) : serve 1 (line.map Waiter.one) =
    ((line.take 1).map Permit.one, (line.drop 1).map Waiter.one, 1 - line.length) := by
  cases line with
  | nil => rfl
  | cons ticket rest =>
    have hrest : serve (0 + 1 - 1) (rest.map Waiter.one) = ([], rest.map Waiter.one, 0) :=
      serve_zero rest
    rw [List.map_cons, Waiter.one, serve, if_pos (Nat.le_refl 1), hrest]
    simp [Permit.one]

/-- A line with one more unit than `more`, and the first one before the others. -/
theorem serving_cons (more ticket : Nat) (line : List Nat) :
    serving (more + 1) (ticket :: line) = { serving (more + 1) line with
      free := more - line.length
      queue := (line.drop more).map Waiter.one
      permits := Permit.one ticket :: (line.take more).map Permit.one } := by
  simp [serving]

theorem filter_one_eq_nil (hnot : ticket ∉ line) :
    (line.map Permit.one).filter (fun p => p.ticket == ticket) = [] ∧
      (line.map Waiter.one).filter (fun w => w.ticket == ticket) = [] := by
  constructor
  · rw [List.filter_eq_nil_iff]
    exact List.forall_mem_map.2 fun other hmem heq => hnot (beq_iff_eq.1 heq ▸ hmem)
  · rw [List.filter_eq_nil_iff]
    exact List.forall_mem_map.2 fun other hmem heq => hnot (beq_iff_eq.1 heq ▸ hmem)

theorem filter_one_eq_self (hnot : ticket ∉ line) :
    (line.map Permit.one).filter (fun p => p.ticket != ticket) = line.map Permit.one ∧
      (line.map Waiter.one).filter (fun w => w.ticket != ticket) = line.map Waiter.one := by
  constructor
  · rw [List.filter_eq_self]
    exact List.forall_mem_map.2 fun other hmem => bne_iff_ne.2 fun heq => hnot (heq ▸ hmem)
  · rw [List.filter_eq_self]
    exact List.forall_mem_map.2 fun other hmem => bne_iff_ne.2 fun heq => hnot (heq ▸ hmem)

/-- **When the first one leaves**, the others move up. -/
theorem drop_serving (hcapacity : 1 ≤ capacity) (hnot : ticket ∉ line) :
    (serving capacity (ticket :: line)).drop ticket = serving capacity line := by
  obtain ⟨more, rfl⟩ := Nat.exists_eq_add_of_le' hcapacity
  have htake : ticket ∉ line.take more := fun hmem => hnot (List.mem_of_mem_take hmem)
  have hdrop : ticket ∉ line.drop more := fun hmem => hnot (List.mem_of_mem_drop hmem)
  have hunits : (serving (more + 1) (ticket :: line)).unitsOf ticket = 1 := by
    rw [serving_cons, unitsOf]
    simp only [List.filter_cons, Permit.one, beq_self_eq_true, if_true]
    rw [(filter_one_eq_nil htake).1, (filter_one_eq_nil hdrop).2]
    rfl
  have hleft : (serving (more + 1) (ticket :: line)).without ticket =
      { serving (more + 1) line with
        free := more - line.length
        queue := (line.drop more).map Waiter.one
        permits := (line.take more).map Permit.one } := by
    rw [serving_cons, without]
    simp only [List.filter_cons, Permit.one, bne_self_eq_false, Bool.false_eq_true, if_false]
    rw [(filter_one_eq_self htake).1, (filter_one_eq_self hdrop).2]
  rw [drop_eq, hunits, hleft, deposit_eq, serve_one]
  have hfree : more - line.length + (1 - (line.drop more).length) = more + 1 - line.length := by
    rw [List.length_drop]
    omega
  simp only [hfree, ← List.map_append, ← List.take_add, List.drop_drop]
  rfl

end Gate

end QueryCache
