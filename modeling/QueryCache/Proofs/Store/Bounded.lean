import QueryCache.Proofs.Assoc
import QueryCache.Proofs.Digest.Sha256
import QueryCache.Proofs.Joined
import QueryCache.Store.Bounded
import QueryCache.Store.Memory

/-!
# Bounded keys make no difference

A store with bounded keys keeps a short key as it is and an overlong one under its digest. As long
as keys do not meet there, the store answers every request, and counts, like one in memory: its
table is that of the store in memory with other names for the keys.

Keys meet only if two overlong keys have one digest, or if a key is itself written like a digest.
The keys of pointers and of query results have a separator in them and are never written so.

## Main definitions

* `StoreRequest`, `StoreRequest.askAll` : what can be asked of a store, and its answers.
* `Table.Renamed` : two tables hold the same under different names.
* `BoundedStore.IsDigestKey` : keys that are written like digests.

## Main results

* `Table.Renamed.call` : a call to two tables that hold the same.
* `BoundedStore.Apart.storageKey_inj` : keys do not meet.
* `BoundedStore.answers_like_memory` : bounded keys make no difference to the answers.
-/

namespace QueryCache

/-! ### Requests -/

/-- What can be asked of a store: a call, or what it has done so far. -/
inductive StoreRequest where
  | call (c : Call)
  | stats

namespace StoreRequest

/-- The reply to a request. -/
@[reducible] def Reply : StoreRequest → Type
  | .call c => c.Reply
  | .stats => Stats

variable {σ : Type} [CacheStore σ]

/-- What a store answers to a request and leaves behind. -/
def ask : (r : StoreRequest) → σ → Except CacheError r.Reply × σ
  | .call c, s => CacheStore.call c s
  | .stats, s => CacheStore.stats s

/-- What a store answers to requests that follow one another. -/
def askAll : List StoreRequest → σ → List ((r : StoreRequest) × Except CacheError r.Reply)
  | [], _ => []
  | r :: rest, s => ⟨r, (r.ask s).1⟩ :: askAll rest (r.ask s).2

end StoreRequest

/-! ### Tables under other names -/

/-- The second table holds under the names of some keys what the first one holds under the keys,
and nothing else. Both have done the same. -/
structure Table.Renamed (name : String → String) (K : String → Prop) (t t' : Table) : Prop where
  sorted : t.entries.Sorted
  sorted' : t'.entries.Sorted
  lookup_eq : ∀ key, K key → t'.entries.lookup (name key) = t.entries.lookup key
  length_eq : t'.entries.length = t.entries.length
  counters_eq : t'.counters = t.counters

namespace Table.Renamed

variable {name : String → String} {K : String → Prop} {t t' : Table}

theorem empty : Renamed name K {} {} := ⟨.nil, .nil, fun _ _ => rfl, rfl, rfl⟩

/-- Two tables that hold the same report the same. -/
theorem stats_eq (h : Renamed name K t t') : t'.stats = t.stats := by
  rw [stats, stats, h.counters_eq, h.length_eq]

variable {key : String}

theorem get (h : Renamed name K t t') (hkey : K key) :
    (t'.get (name key)).1 = (t.get key).1 ∧ Renamed name K (t.get key).2 (t'.get (name key)).2 := by
  rw [Table.get, Table.get, h.lookup_eq key hkey, h.counters_eq]
  cases t.entries.lookup key with
  | some value => exact ⟨rfl, h.sorted, h.sorted', h.lookup_eq, h.length_eq, rfl⟩
  | none => exact ⟨rfl, h.sorted, h.sorted', h.lookup_eq, h.length_eq, rfl⟩

theorem set (hname : ∀ key key', K key → K key' → name key = name key' → key = key')
    (h : Renamed name K t t') (hkey : K key) (value : ByteArray) :
    Renamed name K (t.set key value) (t'.set (name key) value) where
  sorted := h.sorted.insert
  sorted' := h.sorted'.insert
  lookup_eq other hother := by
    have hsame : name other = name key ↔ other = key :=
      ⟨hname other key hother hkey, congrArg name⟩
    simp only [Table.set, Assoc.lookup_insert, hsame, h.lookup_eq other hother]
  length_eq := by
    simp only [Table.set, h.sorted.length_insert, h.sorted'.length_insert, h.lookup_eq key hkey,
      h.length_eq]
  counters_eq := by simp only [Table.set, h.counters_eq]

theorem delete (hname : ∀ key key', K key → K key' → name key = name key' → key = key')
    (h : Renamed name K t t') (hkey : K key) :
    (t'.delete (name key)).1 = (t.delete key).1 ∧
      Renamed name K (t.delete key).2 (t'.delete (name key)).2 := by
  have hsame (other : String) (hother : K other) : name other = name key ↔ other = key :=
    ⟨hname other key hother hkey, congrArg name⟩
  have hlookup := h.lookup_eq key hkey
  rw [Table.delete, Table.delete, hlookup, h.counters_eq]
  cases hvalue : t.entries.lookup key with
  | some value =>
    refine ⟨rfl, h.sorted.erase, h.sorted'.erase, fun other hother => ?_, ?_, rfl⟩
    · simp only [Assoc.lookup_erase, hsame other hother, h.lookup_eq other hother]
    · simp only [h.sorted.length_erase, h.sorted'.length_erase, hlookup, h.length_eq]
  | none => exact ⟨rfl, h⟩

/-- **A call** is answered alike by two tables that hold the same, and they still do after it. -/
theorem call (hname : ∀ key key', K key → K key' → name key = name key' → key = key')
    (h : Renamed name K t t') (c : Call) (hc : K c.key) :
    (t'.call (name c.key) c).1 = (t.call c.key c).1 ∧
      Renamed name K (t.call c.key c).2 (t'.call (name c.key) c).2 := by
  cases c with
  | get key => exact h.get hc
  | set key value => exact ⟨rfl, h.set hname hc value⟩
  | delete key => exact h.delete hname hc

end Table.Renamed

namespace BoundedStore

/-! ### Names that do not meet -/

/-- Keys that are written like digests: the mark, and 64 hexadecimal digits. -/
def IsDigestKey (key : String) : Prop :=
  ∃ digits : List Char, digits.length = 64 ∧ (∀ c ∈ digits, Sha256.isHexDigit c) ∧
    key = digestMark ++ String.ofList digits

/-- An overlong key is kept under a key that is written like a digest. -/
theorem isDigestKey_storageKey {key : String} (h : maxKeySize < key.utf8ByteSize) :
    IsDigestKey (storageKey key) := by
  obtain ⟨digits, hdigest, hlength, hdigits⟩ := Sha256.hexDigest_shape key.toUTF8
  exact ⟨digits, hlength, hdigits, by rw [storageKey, if_neg (Nat.not_le.2 h), hdigest]⟩

/-- A key that is written like a digest has no separator in it. -/
theorem not_isDigestKey_of_separator {key : String} (h : '_' ∈ key.toList) :
    ¬ IsDigestKey key := by
  rintro ⟨digits, -, hdigits, rfl⟩
  rw [String.toList_append, String.toList_ofList] at h
  rcases List.mem_append.1 h with hmark | hdigit
  · exact absurd hmark (by decide)
  · exact absurd (hdigits _ hdigit) (by decide)

/-- Keys that do not meet: none of them is written like a digest, and no two overlong ones have one
digest. -/
structure Apart (K : String → Prop) : Prop where
  plain : ∀ key, K key → ¬ IsDigestKey key
  digest : ∀ key key', K key → K key' → maxKeySize < key.utf8ByteSize →
    maxKeySize < key'.utf8ByteSize → Sha256.digest key.toUTF8 = Sha256.digest key'.toUTF8 →
      key = key'

/-- **Keys that do not meet** are kept under different keys. -/
theorem Apart.storageKey_inj {K : String → Prop} (h : Apart K) (key key' : String) (hkey : K key)
    (hkey' : K key') (hsame : storageKey key = storageKey key') : key = key' := by
  have short {key : String} (hshort : key.utf8ByteSize ≤ maxKeySize) : storageKey key = key :=
    if_pos hshort
  rcases Nat.lt_or_ge maxKeySize key.utf8ByteSize with hlong | hshort <;>
    rcases Nat.lt_or_ge maxKeySize key'.utf8ByteSize with hlong' | hshort'
  · refine h.digest key key' hkey hkey' hlong hlong' (Sha256.hexDigest_inj ?_)
    rw [storageKey, storageKey, if_neg (Nat.not_le.2 hlong), if_neg (Nat.not_le.2 hlong')] at hsame
    exact String.append_right_inj digestMark |>.1 hsame
  · exact absurd (short hshort' ▸ hsame ▸ isDigestKey_storageKey hlong) (h.plain key' hkey')
  · exact absurd (short hshort ▸ hsame ▸ isDigestKey_storageKey hlong') (h.plain key hkey)
  · rw [← short hshort, hsame, short hshort']

/-! ### Answers -/

theorem call_of_ne_empty {c : Call} (hc : c.key ≠ "") (s : BoundedStore) :
    CacheStore.call c s =
      (.ok (s.table.call (storageKey c.key) c).1, ⟨(s.table.call (storageKey c.key) c).2⟩) := by
  have hcall : CacheStore.call c s = s.call c := rfl
  rw [hcall, call, if_neg (by simpa using hc)]

/-- **Requests** that follow one another are answered alike. -/
theorem askAll_eq {K : String → Prop} (hK : Apart K) {requests : List StoreRequest}
    (h : ∀ c, .call c ∈ requests → c.key ≠ "" ∧ K c.key) {s : MemoryStore} {s' : BoundedStore}
    (hs : Table.Renamed storageKey K s.table s'.table) :
    StoreRequest.askAll requests s' = StoreRequest.askAll requests s := by
  induction requests generalizing s s' with
  | nil => rfl
  | cons r rest ih =>
    have hrest := fun c hc => h c (List.mem_cons_of_mem _ hc)
    cases r with
    | stats =>
      have hstats : (StoreRequest.stats.ask s').1 = (StoreRequest.stats.ask s).1 :=
        congrArg Except.ok hs.stats_eq
      rw [StoreRequest.askAll, StoreRequest.askAll, hstats]
      exact congrArg _ (ih hrest hs)
    | call c =>
      obtain ⟨hne, hc⟩ := h c List.mem_cons_self
      obtain ⟨hreply, hafter⟩ := hs.call hK.storageKey_inj c hc
      have hask : (StoreRequest.call c).ask s' = _ := call_of_ne_empty hne s'
      rw [StoreRequest.askAll, StoreRequest.askAll, hask, hreply]
      exact congrArg _ (ih hrest hafter)

/-- **Bounded keys make no difference.** Let requests of any number follow one another, none of them
about the empty key. If no key is written like a digest, and no two keys of more than 511 bytes have
the same digest, then an empty store with bounded keys answers all of them, with its counters and
the number of its entries, like an empty store in memory. The keys of pointers and of query results
are never written like digests. -/
theorem answers_like_memory :
    (∀ {requests : List StoreRequest},
      (∀ c, .call c ∈ requests → c.key ≠ "" ∧ ¬ IsDigestKey c.key) →
      (∀ c c', .call c ∈ requests → .call c' ∈ requests → c.key ≠ c'.key →
        511 < c.key.utf8ByteSize → 511 < c'.key.utf8ByteSize →
          Sha256.digest c.key.toUTF8 ≠ Sha256.digest c'.key.toUTF8) →
      StoreRequest.askAll requests ({} : BoundedStore) =
        StoreRequest.askAll requests ({} : MemoryStore)) ∧
    ∀ (space : KeySpace) (text : String),
      ¬ IsDigestKey (space.indexKey text) ∧ ¬ IsDigestKey (space.queryKey text) := by
  refine ⟨fun {requests} hkeys hdigests => ?_, fun space text => ?_⟩
  · have hapart : Apart fun key => ∃ c, .call c ∈ requests ∧ c.key = key := by
      constructor
      · rintro _ ⟨c, hc, rfl⟩
        exact (hkeys c hc).2
      · rintro _ _ ⟨c, hc, rfl⟩ ⟨c', hc', rfl⟩ hlong hlong' hsame
        by_contra hne
        exact hdigests c c' hc hc' hne hlong hlong' hsame
    exact askAll_eq hapart (fun c hc => ⟨(hkeys c hc).1, c, hc, rfl⟩) .empty
  · exact ⟨not_isDigestKey_of_separator (space.separator_mem_indexKey text),
      not_isDigestKey_of_separator (space.separator_mem_indexKey text)⟩

/-- The key of the pointer to a user, for the value of an index. -/
def userKey (value : String) : String := KeySpace.indexKey ⟨"db1", "users"⟩ value

/-- A value of 600 letters. -/
def longValue : String := String.ofList (List.replicate 600 'x')

/-- An entry under an overlong key is made, read and removed, and looked for under a short key. -/
def longKeyRequests : List StoreRequest :=
  [.call (.set (userKey longValue) "r".toUTF8), .call (.get (userKey longValue)),
    .call (.get (userKey "a@x.com")), .call (.delete (userKey longValue)),
    .call (.delete (userKey longValue)), .stats]

/-- The store with bounded keys finds the entry once and removes it once. -/
theorem answers_like_memory_long :
    StoreRequest.askAll longKeyRequests ({} : BoundedStore) =
      [⟨.call (.set (userKey longValue) "r".toUTF8), .ok ()⟩,
        ⟨.call (.get (userKey longValue)), .ok (some "r".toUTF8)⟩,
        ⟨.call (.get (userKey "a@x.com")), .ok none⟩,
        ⟨.call (.delete (userKey longValue)), .ok true⟩,
        ⟨.call (.delete (userKey longValue)), .ok false⟩, ⟨.stats, .ok ⟨1, 1, 1, 1, 0⟩⟩] := by
  have hkey (c : Call) (hc : .call c ∈ longKeyRequests) :
      c.key = userKey longValue ∨ c.key = userKey "a@x.com" := by
    simp only [longKeyRequests, List.mem_cons, StoreRequest.call.injEq, reduceCtorEq,
      List.not_mem_nil, or_false] at hc
    rcases hc with rfl | rfl | rfl | rfl | rfl <;> simp [Call.key]
  have hshort : ¬ 511 < (userKey "a@x.com").utf8ByteSize := by decide
  refine (answers_like_memory.1 (fun c hc => ?_) fun c c' hc hc' hne hlong hlong' => ?_).trans ?_
  · rcases hkey c hc with hsame | hsame <;> rw [hsame]
    · exact ⟨by decide +kernel, (answers_like_memory.2 _ _).1⟩
    · exact ⟨by decide, (answers_like_memory.2 _ _).1⟩
  · -- only one of the keys is overlong
    rcases hkey c hc with hsame | hsame <;> rcases hkey c' hc' with hsame' | hsame'
    · exact absurd (hsame.trans hsame'.symm) hne
    · exact absurd (hsame' ▸ hlong') hshort
    · exact absurd (hsame ▸ hlong) hshort
    · exact absurd (hsame.trans hsame'.symm) hne
  · have hne : userKey "a@x.com" ≠ userKey longValue := by decide +kernel
    rw [longKeyRequests]
    generalize userKey longValue = key at hne ⊢
    generalize userKey "a@x.com" = other at hne ⊢
    simp [StoreRequest.askAll, StoreRequest.ask, CacheStore.call, CacheStore.stats,
      MemoryStore.call, Table.call, Table.set, Table.get, Table.delete, Table.stats, Call.key,
      Assoc.insert, Assoc.erase, Assoc.lookup_cons, hne]

end BoundedStore

end QueryCache
