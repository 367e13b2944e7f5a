import Mathlib
import QueryCache.Uuid
import QueryCache.Proofs.RecordId
import QueryCache.Proofs.Digest.Sha256

/-!
# Identifiers of a source grow

The hyphenated form has the digits of a number at the same places in every text, from the highest to
the lowest. So texts are in the order of the numbers.

The lower half of a candidate of the clock begins with the bits `10` of its variant, so the last
quarter of the range of the half is free. Fewer identifiers than that quarter has numbers cause no
carry out of the lower half. The version digit stands above it, and as it is 7 it also keeps a
source from the last number of all.

## Main definitions

* `Uuid.IsHyphenated` : the texts in groups of 8, 4, 4, 4 and 12 digits.
* `Uuid.Ready` : a source that can give out a number of identifiers more.
* `Uuid.Precedes` : an identifier that comes after another one.

## Main results

* `Uuid.text_lt_text` : texts are in the order of the numbers.
* `Uuid.Ready.step` : what one call of a source keeps.
* `Uuid.Ready.pairwise_run` : a run of a source.
* `Uuid.generate_increasing` : the identifiers of a new source.
-/

namespace QueryCache.Uuid

variable {u v : Uuid}

/-! ### Digits -/

theorem digit_eq (u : Uuid) (i : ℕ) :
    u.digit i = Sha256.hexChar (u.toNat / 16 ^ (31 - i) % 16) := by
  rw [digit, Sha256.hexChar, Nat.shiftRight_eq_div_pow, Nat.pow_mul]

theorem isHexDigit_digit (u : Uuid) (i : ℕ) : Sha256.isHexDigit (u.digit i) := by
  rw [digit_eq]
  exact Sha256.isHexDigit_hexChar (Nat.mod_lt _ (by decide))

theorem digit_version (u : Uuid) : u.digit 12 = Sha256.hexChar u.version := rfl

/-- The digits in front agree, and the next one is smaller. -/
theorem exists_first_digit_lt (h : u.toNat < v.toNat) :
    ∃ i < 32, (∀ j < i, u.digit j = v.digit j) ∧ u.digit i < v.digit i := by
  have hv : v.toNat < 16 ^ 32 := Nat.lt_of_lt_of_eq v.isLt (by decide)
  obtain ⟨k, hk, hfront, hdigit⟩ := Sha256.exists_digit_lt h hv
  refine ⟨31 - k, by omega, fun j hj => ?_, ?_⟩
  · have front (x : ℕ) : x / 16 ^ (31 - j) = x / 16 ^ (k + 1) / 16 ^ (30 - k - j) := by
      rw [Nat.div_div_eq_div_mul, ← Nat.pow_add]
      congr 2
      omega
    rw [digit_eq, digit_eq, front, front v.toNat, hfront]
  · rw [digit_eq, digit_eq, show 31 - (31 - k) = k by omega]
    exact Sha256.hexChar_lt hdigit (Nat.mod_lt _ (by decide))

/-! ### Texts -/

/-- The places of the hyphenated form: the digit that stands there, or none for a hyphen. -/
def places : List (Option ℕ) :=
  (List.range' 0 8).map some ++ none :: (List.range' 8 4).map some ++
    none :: (List.range' 12 4).map some ++ none :: (List.range' 16 4).map some ++
      none :: (List.range' 20 12).map some

/-- The character at a place. -/
def charAt (u : Uuid) : Option ℕ → Char
  | none => '-'
  | some i => u.digit i

theorem toList_text (u : Uuid) : u.text.toList = places.map u.charAt := by
  rw [text, String.toList_ofList]
  rfl

theorem mem_places : ∀ i < 32, some i ∈ places := by decide

theorem pairwise_places : places.Pairwise fun p q => ∀ i ∈ p, ∀ j ∈ q, i < j := by decide

/-- **Texts** are in the order of the numbers. -/
theorem text_lt_text (h : u.toNat < v.toNat) : u.text < v.text := by
  obtain ⟨i, hi, hfront, hdigit⟩ := exists_first_digit_lt h
  obtain ⟨before, after, hplaces⟩ := List.append_of_mem (mem_places i hi)
  have hsorted := hplaces ▸ pairwise_places
  have hbefore : before.map u.charAt = before.map v.charAt := by
    refine List.map_congr_left fun place hplace => ?_
    cases place with
    | none => rfl
    | some j =>
      have hbetween := (List.pairwise_append.1 hsorted).2.2 _ hplace _ List.mem_cons_self
      exact hfront j (hbetween j rfl i rfl)
  rw [String.lt_iff_toList_lt, toList_text, toList_text, hplaces, List.map_append, List.map_append,
    hbefore]
  exact List.append_left_lt (List.Lex.rel hdigit)

/-- Lower-case hexadecimal digits in groups of 8, 4, 4, 4 and 12 with hyphens between them. -/
def IsHyphenated (text : String) : Prop :=
  ∃ groups : List (List Char), groups.map List.length = [8, 4, 4, 4, 12] ∧
    (∀ group ∈ groups, ∀ c ∈ group, Sha256.isHexDigit c) ∧ text.toList = ['-'].intercalate groups

theorem isHyphenated_text (u : Uuid) : IsHyphenated u.text := by
  refine ⟨[u.digits 0 8, u.digits 8 4, u.digits 12 4, u.digits 16 4, u.digits 20 12], rfl, ?_, ?_⟩
  · intro group hgroup c hc
    have hdigits : ∃ first count, group = u.digits first count := by
      simp only [List.mem_cons, List.not_mem_nil, or_false] at hgroup
      rcases hgroup with h | h | h | h | h <;> exact ⟨_, _, h⟩
    obtain ⟨first, count, rfl⟩ := hdigits
    obtain ⟨i, -, rfl⟩ := List.mem_map.1 hc
    exact isHexDigit_digit u i
  · rw [text, String.toList_ofList]
    rfl

theorem text_version (h : u.version = 7) : u.text.toList[14]? = some '7' := by
  have hdigit : u.text.toList[14]? = some (u.digit 12) := by
    rw [toList_text]
    rfl
  rw [hdigit, digit_version, h]
  rfl

/-! ### One call -/

variable {last candidate : Uuid} {n : ℕ}

theorem version_eq (u : Uuid) : u.version = u.toNat / 2 ^ 76 % 16 := by
  rw [version, Nat.shiftRight_eq_div_pow]

theorem variant_eq (u : Uuid) : u.variant = u.toNat / 2 ^ 62 % 4 := by
  rw [variant, Nat.shiftRight_eq_div_pow]

/-- **The successor** of an identifier of version 7 does not wrap around. -/
theorem toNat_succ_of_version (h : u.version = 7) : (u + 1).toNat = u.toNat + 1 := by
  have hu := u.isLt
  have hlt : u.toNat + 1 < 2 ^ 128 := by
    rw [version_eq] at h
    omega
  rw [BitVec.toNat_add]
  exact Nat.mod_eq_of_lt hlt

/-- A source that has given out `last`, or nothing yet, can give out `n` identifiers more: so many
successors of `last` keep the bits above its lower half, and with them the version digit. -/
structure Ready (n : ℕ) (last : Uuid) : Prop where
  room : last.toNat % 2 ^ 64 + n < 2 ^ 64
  version : last = 0 ∨ last.version = 7

theorem ready_zero (hn : n < 2 ^ 64) : Ready n 0 := ⟨by simpa using hn, .inl rfl⟩

theorem IsTimeOrdered.ready (h : candidate.IsTimeOrdered) (hn : n < 2 ^ 62) :
    Ready n candidate := by
  refine ⟨?_, .inr h.1⟩
  have hvariant := h.2
  rw [variant_eq] at hvariant
  omega

theorem IsTimeOrdered.pos (h : candidate.IsTimeOrdered) : 0 < candidate.toNat := by
  have hversion := h.1
  rw [version_eq] at hversion
  omega

theorem Ready.version_succ (h : Ready (n + 1) last) (hversion : last.version = 7) :
    (last + 1).version = 7 := by
  have hroom := h.room
  rw [version_eq, toNat_succ_of_version hversion]
  rw [version_eq] at hversion
  omega

/-- A source gives out an identifier of version 7 some time after another one. -/
structure Precedes (u v : Uuid) : Prop where
  lt : u.toNat < v.toNat
  version : v.version = 7

theorem Precedes.trans {w : Uuid} (h : Precedes u v) (h' : Precedes v w) : Precedes u w :=
  ⟨h.lt.trans h'.lt, h'.version⟩

/-- **One call** of a source gives a later identifier, and one is less to come. -/
theorem Ready.step (h : Ready (n + 1) last) (hclock : candidate.IsTimeOrdered) (hn : n < 2 ^ 62) :
    Precedes last (next last candidate) ∧ Ready n (next last candidate) := by
  by_cases hle : candidate ≤ last
  · -- The clock is not above the last identifier, so there is one.
    have hversion : last.version = 7 := by
      refine h.version.resolve_left ?_
      rintro rfl
      exact absurd hclock.pos (Nat.not_lt.2 hle)
    have hroom := h.room
    rw [next, if_pos hle]
    refine ⟨⟨?_, h.version_succ hversion⟩, ⟨?_, .inr (h.version_succ hversion)⟩⟩
    · rw [toNat_succ_of_version hversion]
      omega
    · rw [toNat_succ_of_version hversion]
      omega
  · rw [next, if_neg hle]
    exact ⟨⟨BitVec.not_le.1 hle, hclock.1⟩, hclock.ready hn⟩

/-! ### Runs -/

variable {candidates : List Uuid}

theorem length_run (last : Uuid) (candidates : List Uuid) :
    (run last candidates).length = candidates.length := by
  induction candidates generalizing last with
  | nil => rfl
  | cons candidate rest ih => rw [run, List.length_cons, List.length_cons, ih]

/-- **A run of a source**: what it gives out later is larger and of version 7. -/
theorem Ready.pairwise_run (h : Ready candidates.length last)
    (hclock : ∀ candidate ∈ candidates, candidate.IsTimeOrdered)
    (hlength : candidates.length ≤ 2 ^ 62) : (last :: run last candidates).Pairwise Precedes := by
  induction candidates generalizing last with
  | nil => exact List.pairwise_singleton _ _
  | cons candidate rest ih =>
    obtain ⟨hprecedes, hready⟩ := h.step (hclock candidate List.mem_cons_self) hlength
    have hrest := ih hready (fun c hc => hclock c (List.mem_cons_of_mem _ hc)) (by
      rw [List.length_cons] at hlength
      omega)
    refine List.pairwise_cons.2 ⟨fun w hw => ?_, hrest⟩
    rcases List.mem_cons.1 hw with rfl | hw
    · exact hprecedes
    · exact hprecedes.trans ((List.pairwise_cons.1 hrest).1 w hw)

/-- **The identifiers of a new source** grow, whatever the clock offers, for fewer than `2 ^ 62`
calls: they are in the order of record identifiers and differ from each other, the successor of the
last one never wraps around, and each is a hyphenated text whose version digit is 7. -/
theorem generate_increasing (hclock : ∀ candidate ∈ candidates, candidate.IsTimeOrdered)
    (hlength : candidates.length < 2 ^ 62) :
    (generate candidates).length = candidates.length ∧
      ((generate candidates).map toRecordId).Pairwise (· < ·) ∧
      ((generate candidates).map toRecordId).Nodup ∧
      (∀ last ∈ 0 :: generate candidates, (last + 1).toNat = last.toNat + 1) ∧
      ∀ u ∈ generate candidates,
        u.version = 7 ∧ IsHyphenated u.text ∧ u.text.toList[14]? = some '7' := by
  have hready : Ready candidates.length 0 := ready_zero (by omega)
  obtain ⟨hversions, hpairwise⟩ := List.pairwise_cons.1 (hready.pairwise_run hclock hlength.le)
  have hincreasing : ((generate candidates).map toRecordId).Pairwise (· < ·) :=
    hpairwise.map toRecordId fun u v h => RecordId.lt_iff_text_lt.2 (text_lt_text h.lt)
  refine ⟨length_run 0 candidates, hincreasing, hincreasing.imp ?_, ?_, fun u hu => ?_⟩
  · rintro id _ h rfl
    exact absurd (RecordId.lt_iff_text_lt.1 h) (lt_irrefl _)
  · intro last hlast
    rcases List.mem_cons.1 hlast with rfl | hlast
    · rfl
    · exact toNat_succ_of_version (hversions last hlast).version
  · have hversion := (hversions u hu).version
    exact ⟨hversion, isHyphenated_text u, text_version hversion⟩

/-- A clock that offers the last candidate of all twice, with every free bit set, and then runs
backwards to the first one. -/
def clockBackwards : List Uuid :=
  [0xffffffffffff7fffbfffffffffffffff#128, 0xffffffffffff7fffbfffffffffffffff#128,
    0x00000000000070008000000000000000#128]

/-- The first successor carries into the variant, and no further. -/
theorem generate_increasing_clockBackwards :
    (∀ candidate ∈ clockBackwards, candidate.IsTimeOrdered) ∧ clockBackwards.length < 2 ^ 62 ∧
      (generate clockBackwards).map toRecordId =
        [⟨"ffffffff-ffff-7fff-bfff-ffffffffffff"⟩, ⟨"ffffffff-ffff-7fff-c000-000000000000"⟩,
          ⟨"ffffffff-ffff-7fff-c000-000000000001"⟩] ∧
      ((generate clockBackwards).map toRecordId).Pairwise (· < ·) ∧
      ((generate clockBackwards).map toRecordId).Nodup ∧
      (∀ last ∈ 0 :: generate clockBackwards, (last + 1).toNat = last.toNat + 1) ∧
      ∀ u ∈ generate clockBackwards,
        u.version = 7 ∧ IsHyphenated u.text ∧ u.text.toList[14]? = some '7' := by
  -- The list is gone through here: the decision for all identifiers would try every number.
  have hclock : ∀ candidate ∈ clockBackwards, candidate.IsTimeOrdered := by
    rw [clockBackwards, List.forall_mem_cons, List.forall_mem_cons, List.forall_mem_singleton]
    decide
  have hlength : clockBackwards.length < 2 ^ 62 := by norm_num [clockBackwards]
  exact ⟨hclock, hlength, by decide, (generate_increasing hclock hlength).2⟩

end QueryCache.Uuid
