import Mathlib.Logic.Function.Basic
import QueryCache.Store.Faulty

/-!
# Stores as maps

What a store holds is a map from keys to bytes. A store is lawful if a call that it answers is
answered, and changes what it holds, as for the map, and if a call that fails changes nothing. All
stores in memory are lawful, those included that fail.

## Main definitions

* `Contents`, `Call.apply`, `Call.applyAll` : maps, and calls on them.
* `Contents.fill` : a map with one value under several keys.
* `LawfulStore` : stores that behave like the map of what they hold.

## Main results

* `Table.call_eq_apply` : tables behave like their maps, and with them the stores in memory.
-/

namespace QueryCache

/-- What a store holds: the bytes under each key. -/
abbrev Contents := String → Option ByteArray

/-- What a call answers and leaves behind on a map. -/
def Call.apply : (c : Call) → Contents → c.Reply × Contents
  | .get key, m => (m key, m)
  | .set key value, m => ((), Function.update m key (some value))
  | .delete key, m => ((m key).isSome, Function.update m key none)

/-- What calls leave behind on a map, one after the other. -/
def Call.applyAll (calls : List Call) (m : Contents) : Contents :=
  calls.foldl (fun m c => (c.apply m).2) m

namespace Contents

/-- The map with one value under several keys. -/
def fill (m : Contents) (keys : List String) (value : Option ByteArray) : Contents :=
  fun key => if key ∈ keys then value else m key

variable (m : Contents) {keys : List String} (value : Option ByteArray) {key : String}

theorem fill_of_mem (h : key ∈ keys) : m.fill keys value key = value := if_pos h

theorem fill_of_notMem (h : key ∉ keys) : m.fill keys value key = m key := if_neg h

theorem fill_congr {keys' : List String} (h : ∀ key, key ∈ keys ↔ key ∈ keys') :
    m.fill keys value = m.fill keys' value := by
  funext key
  simp only [fill, h]

@[simp] theorem fill_nil : m.fill [] value = m := rfl

theorem fill_update (rest : List String) :
    fill (Function.update m key value) rest value = m.fill (key :: rest) value := by
  funext other
  by_cases hkey : other = key <;> simp [fill, hkey]

end Contents

/-- Calls that leave one value under their keys leave it under all of them and change nothing else,
whatever their order. -/
theorem Call.applyAll_eq_fill {calls : List Call} {value : Option ByteArray}
    (h : ∀ c ∈ calls, ∀ m, (c.apply m).2 = Function.update m c.key value) (m : Contents) :
    Call.applyAll calls m = m.fill (calls.map Call.key) value := by
  induction calls generalizing m with
  | nil => rfl
  | cons c rest ih =>
    have hrest := ih (fun c hc => h c (List.mem_cons_of_mem _ hc)) (c.apply m).2
    rw [h c List.mem_cons_self, Contents.fill_update] at hrest
    rw [← h c List.mem_cons_self] at hrest
    exact hrest

/-- A store that behaves like the map of what it holds. -/
class LawfulStore (σ : Type) [CacheStore σ] where
  contents : σ → Contents
  call_ok : ∀ {c : Call} {s s' : σ} {reply : c.Reply},
    CacheStore.call c s = (.ok reply, s') → c.apply (contents s) = (reply, contents s')
  call_error : ∀ {c : Call} {s s' : σ} {e : CacheError},
    CacheStore.call c s = (.error e, s') → contents s' = contents s

namespace Table

/-- The map of a table. -/
def contents (t : Table) : Contents := fun key => t.entries.lookup key

theorem contents_insert (t : Table) (counters : Stats) (key : String) (value : ByteArray) :
    contents ⟨t.entries.insert key value, counters⟩ =
      Function.update t.contents key (some value) := by
  funext other
  simp [contents, Function.update_apply]

theorem contents_erase (t : Table) (counters : Stats) (key : String) :
    contents ⟨t.entries.erase key, counters⟩ = Function.update t.contents key none := by
  funext other
  simp [contents, Function.update_apply]

/-- **A table behaves like its map.** -/
theorem call_eq_apply (t : Table) (c : Call) :
    c.apply t.contents = ((t.call c.key c).1, (t.call c.key c).2.contents) := by
  cases c with
  | get key =>
    have hget : t.contents key = t.entries.lookup key := rfl
    cases hkey : t.entries.lookup key with
    | some value =>
      simp only [Call.apply, Call.key, Table.call, Table.get, hget, hkey]
      rfl
    | none =>
      simp only [Call.apply, Call.key, Table.call, Table.get, hget, hkey]
      rfl
  | set key value =>
    simp only [Call.apply, Call.key, Table.call, Table.set, contents_insert]
  | delete key =>
    have hget : t.contents key = t.entries.lookup key := rfl
    cases hkey : t.entries.lookup key with
    | some value =>
      simp only [Call.apply, Call.key, Table.call, Table.delete, hget, hkey, contents_erase,
        Option.isSome_some]
    | none =>
      have hsame : Function.update t.contents key none = t.contents := by
        rw [← hkey, ← hget, Function.update_eq_self]
      simp only [Call.apply, Call.key, Table.call, Table.delete, hget, hkey, hsame,
        Option.isSome_none]

end Table

/-! ### The stores in memory -/

instance : LawfulStore MemoryStore where
  contents s := s.table.contents
  call_ok {c s s' reply} h := by
    cases h
    exact s.table.call_eq_apply c
  call_error {c s s' e} h := by
    cases h

instance : LawfulStore RecordingStore where
  contents s := s.inner.table.contents
  call_ok {c s s' reply} h := by
    cases h
    exact s.inner.table.call_eq_apply c
  call_error {c s s' e} h := by
    cases h

instance : LawfulStore SlowStore where
  contents s := s.inner.table.contents
  call_ok {c s s' reply} h := by
    cases h
    exact s.inner.table.call_eq_apply c
  call_error {c s s' e} h := by
    cases h

/-- A failing store refuses a call, or answers a reading one. -/
theorem FailingStore.call_cases (c : Call) (s : FailingStore) :
    s.call c = (.error refusal, s) ∨
      s.call c = ((s.inner.call c).1, { s with inner := (s.inner.call c).2 }) := by
  obtain ⟨inner, mode⟩ := s
  cases mode <;> cases c <;> first
    | exact .inl rfl
    | exact .inr rfl

instance : LawfulStore FailingStore where
  contents s := s.inner.table.contents
  call_ok {c s s' reply} h := by
    rcases FailingStore.call_cases c s with hcall | hcall
    · cases hcall.symm.trans h
    · cases hcall.symm.trans h
      exact s.inner.table.call_eq_apply c
  call_error {c s s' e} h := by
    rcases FailingStore.call_cases c s with hcall | hcall
    · cases hcall.symm.trans h
      rfl
    · cases hcall.symm.trans h

/-- A faulty store counts a call, and then fails or answers it. -/
theorem FaultyStore.call_cases (c : Call) (s : FaultyStore) :
    (∃ e, s.call c = (.error e, s.count c.kind)) ∨
      s.call c = ((s.inner.call c).1, { s.count c.kind with inner := (s.inner.call c).2 }) := by
  cases hfault : (s.count c.kind).fault? c.kind (some c.key) with
  | some e => exact .inl ⟨e, by simp only [FaultyStore.call, hfault]⟩
  | none =>
    refine .inr ?_
    simp only [FaultyStore.call, hfault]
    rfl

instance : LawfulStore FaultyStore where
  contents s := s.inner.inner.table.contents
  call_ok {c s s' reply} h := by
    rcases FaultyStore.call_cases c s with ⟨e, hcall⟩ | hcall
    · cases hcall.symm.trans h
    · cases hcall.symm.trans h
      exact s.inner.inner.table.call_eq_apply c
  call_error {c s s' e} h := by
    rcases FaultyStore.call_cases c s with ⟨e, hcall⟩ | hcall
    · cases hcall.symm.trans h
      rfl
    · cases hcall.symm.trans h

end QueryCache
