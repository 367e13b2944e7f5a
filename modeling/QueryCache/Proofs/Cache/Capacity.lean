import QueryCache.Proofs.Cache.Scopes
import QueryCache.Proofs.Gate.Requests
import QueryCache.Proofs.Plan.Units

/-!
# Work within the capacity

Whatever is asked of a gate, given back, given up or closed, the live permits never stand for more
units than the gate has, and the units that they do not stand for are there for others. Nothing is
granted once the gate is closed. Operations of the cache ask for a unit with each call: they have at
no moment more calls under way than there are units, and leave a gate that nobody else uses as they
found it, however they end.

## Main results

* `Cache.Operation.leaves_idle` : operations on a gate that nobody else uses.
* `Cache.units_within_capacity` : requests at a gate, and operations of the cache.
-/

namespace QueryCache.Cache

variable {ν α σ : Type} [CacheStore σ]

/-- **An operation on a gate that nobody else uses** ends and leaves the gate unused. -/
theorem Operation.leaves_idle {w : World σ} (hidle : w.gate.Idle) (hcapacity : 0 < w.gate.capacity)
    (space : KeySpace) (operation : Operation ν α) (env : Plan.Environment ν) :
    ∃ r w', (operation.plan space).run env w = (some r, w') ∧ w'.gate.Idle ∧
      w'.gate.capacity = w.gate.capacity := by
  have hsome : ((operation.plan space).run env w).1.isSome = true :=
    Plan.run_isSome hidle.sound_world (.inr (hidle.ready hcapacity))
  obtain ⟨r, hr⟩ := Option.isSome_iff_exists.1 hsome
  have hrun : (operation.plan space).run env w = (some r, _) := Prod.ext hr rfl
  have hkeeps := Plan.run_keeps hidle.sound_world hrun
  exact ⟨r, _, hrun, hkeeps.gate.idle hidle, hkeeps.gate.capacity⟩

/-- **Work stays within the capacity.** Whatever happens at a gate, the live permits stand for no
more units than it has, and while nobody waits the others are free. After closing, nobody waits or
is granted any more, who waited has failed, and live permits return their units when they are
released. An operation of the cache on a gate that nobody else uses ends, has at no moment more
calls under way than there are units, and leaves all of them free. -/
theorem units_within_capacity {capacity : Nat} (hcapacity : 1 ≤ capacity) :
    (∀ {asked : Nat → Nat} {s : Acquisitions},
      Acquisitions.Steps asked (.ofCapacity capacity) s →
      s.gate.capacity = min capacity Gate.maxCapacity ∧
      (∀ weight, 1 ≤ s.gate.clampWeight weight ∧ s.gate.clampWeight weight ≤ s.gate.capacity) ∧
      s.liveUnits asked ≤ s.gate.capacity ∧
      ((∀ a ∈ s.requests, s.standing a ≠ .waiting) →
        s.gate.free = s.gate.capacity - s.liveUnits asked) ∧
      ((∀ a ∈ s.requests, s.standing a ≠ .waiting ∧ s.standing a ≠ .held) →
        s.gate.free = s.gate.capacity) ∧
      (∀ a ∈ s.requests, s.standing a = .waiting → s.close.standing a = .failed .gateClosed) ∧
      ∀ {s' : Acquisitions}, Acquisitions.Steps asked s.close s' →
        (∀ b ∈ s'.requests, s'.standing b ≠ .waiting ∧
          (s'.standing b = .held →
            ∃ a ∈ s.requests, a.ticket = b.ticket ∧ s.standing a = .held)) ∧
        (∀ a ∈ s.requests, s.standing a = .waiting → ∃ b ∈ s'.requests,
          b.ticket = a.ticket ∧ (s'.standing b = .failed .gateClosed ∨ s'.standing b = .gone)) ∧
        (∀ a ∈ s.requests, s.standing a = .held → ∃ b ∈ s'.requests,
          b.ticket = a.ticket ∧ (s'.standing b = .held ∨ s'.standing b = .gone)) ∧
        ∀ {name : String} {b : Acquisition},
          s'.requests.reverse.find? (fun a => a.name == name) = some b → s'.standing b = .held →
            (s'.release name).2.gate.free =
              s'.gate.free + s'.gate.clampWeight (asked b.ticket)) ∧
    ∀ {ν α σ : Type} [CacheStore σ] {w : World σ}, w.gate.Idle → w.gate.capacity = capacity →
      ∀ (space : KeySpace) (operation : Operation ν α) (env : Plan.Environment ν),
        (∃ r w', (operation.plan space).run env w = (some r, w') ∧ w'.gate.Idle ∧
          w'.gate.capacity = capacity) ∧
        ∀ n, (operation.plan space).Employs env w n → n ≤ capacity := by
  refine ⟨fun {asked s} hsteps => ?_, fun {ν α σ} _ {w} hidle heq space operation env => ?_⟩
  · have hsound := hsteps.sound (.start asked capacity)
    have hunits : s.gate.capacity = min capacity Gate.maxCapacity := hsteps.capacity_eq
    have hpositive : 0 < s.gate.capacity := by
      rw [hunits, Gate.maxCapacity]
      omega
    have hclamp (weight : Nat) := And.intro (s.gate.one_le_clampWeight weight)
      (s.gate.clampWeight_le hpositive weight)
    refine ⟨hunits, hclamp, hsound.liveUnits_le, hsound.free_eq, fun hnone => ?_,
      fun a ha => hsound.standing_close ha, fun {s'} hlater => ?_⟩
    · rw [hsound.free_eq fun a ha => (hnone a ha).1,
        Acquisitions.liveUnits_eq_zero fun a ha => (hnone a ha).2, Nat.sub_zero]
    · have hsound' := hlater.sound hsound.close
      have hshut := hlater.shut hsound
      have hwaits : ∀ b ∈ s'.requests, s'.standing b ≠ .waiting := fun b hb =>
        hshut.standing_ne_waiting hsound' hb
      exact ⟨fun b hb => ⟨hwaits b hb, hshut.held_before hsound hsound' hb⟩,
        fun a ha => hshut.standing_of_waiting hsound ha,
        fun a ha => hshut.standing_of_held hsound hsound' ha,
        fun hlatest hheld => hsound'.free_release hwaits hlatest hheld⟩
  · subst heq
    exact ⟨operation.leaves_idle hidle hcapacity space env, fun n hemploys =>
      hemploys.le_capacity hidle.sound_world⟩

/-- The weights that two parties ask for. -/
def lightAndHeavy : Nat → Nat
  | 0 => 1
  | _ => 5

/-- The first has a unit, and the second waits for both. -/
def lightBeforeHeavy : Acquisitions :=
  ((Acquisitions.ofCapacity 2).acquire "light" 1 none none).acquire "heavy" 5 none none

/-- A store that takes its time, behind a gate with two units. -/
def slowStore : World SlowStore := { now := 0, gate := Gate.ofCapacity 2, store := { delay := 5 } }

/-- A record with three pointers is cached. -/
def threePointers : Plan Empty (Option RecordId) :=
  (Operation.insert {} Codec.record ["a", "b", "c"]
    [("a", .str "1"), ("b", .str "2"), ("c", .str "3")]).plan ⟨"app", "users"⟩

/-- Two parties at a gate with two units, the second of which asks for too many and waits until the
gate is closed. Three pointers are written two at a time. -/
theorem units_within_capacity_two :
    lightBeforeHeavy.liveUnits lightAndHeavy ≤ 2 ∧
      lightBeforeHeavy.requests.map lightBeforeHeavy.standing = [.held, .waiting] ∧
      lightBeforeHeavy.requests.map lightBeforeHeavy.close.standing =
        [.held, .failed .gateClosed] ∧
      (lightBeforeHeavy.close.release "light").2.gate.free = 1 + 1 ∧
      (∃ r w', threePointers.run ⟨{}, none, fun _ => ⟨"r"⟩, fun _ => .ok none⟩ slowStore =
        (some r, w') ∧ w'.gate.Idle) ∧
      threePointers.Employs ⟨{}, none, fun _ => ⟨"r"⟩, fun _ => .ok none⟩ slowStore 2 ∧
      ∀ n, threePointers.Employs ⟨{}, none, fun _ => ⟨"r"⟩, fun _ => .ok none⟩ slowStore n →
        n ≤ 2 := by
  obtain ⟨hgate, hoperation⟩ := units_within_capacity (show 1 ≤ 2 by decide)
  have hsteps : Acquisitions.Steps lightAndHeavy (.ofCapacity 2) lightBeforeHeavy :=
    .tail (.single (.acquire "light" none none)) (.acquire "heavy" none none)
  obtain ⟨-, -, hunits, -, -, hclose, hlater⟩ := hgate hsteps
  obtain ⟨-, -, -, hrelease⟩ := hlater .refl
  obtain ⟨⟨r, w', hrun, hidle, -⟩, hemploys⟩ := hoperation (w := slowStore) ⟨rfl, rfl, rfl⟩ rfl
    ⟨"app", "users"⟩ (.insert {} Codec.record ["a", "b", "c"]
      [("a", .str "1"), ("b", .str "2"), ("c", .str "3")] : Operation Empty _)
    ⟨{}, none, fun _ => ⟨"r"⟩, fun _ => .ok none⟩
  have hmoment : threePointers.Employs ⟨{}, none, fun _ => ⟨"r"⟩, fun _ => .ok none⟩ slowStore 2 :=
    .minted (.batch ⟨_, _, .look rfl (.looked (List.take_append_drop 3 _).symm rfl), rfl⟩)
  have hheavy : lightBeforeHeavy.close.standing ⟨"heavy", 1, 0, none, none, none⟩ =
      .failed .gateClosed :=
    hclose _ (.tail _ (.head _)) (by rfl)
  refine ⟨hunits, by rfl, ?_, ?_, ⟨r, w', hrun, hidle⟩, hmoment, hemploys⟩
  · have hlight : lightBeforeHeavy.close.standing ⟨"light", 0, 0, none, none, none⟩ = .held := by
      rfl
    exact congrArg₂ List.cons hlight (congrArg₂ List.cons hheavy rfl)
  · exact hrelease (b := ⟨"light", 0, 0, none, none, none⟩) (by rfl) (by rfl)

end QueryCache.Cache
