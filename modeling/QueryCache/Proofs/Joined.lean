import Mathlib.Data.List.Basic
import QueryCache.KeySpace

/-!
# Parts between separators

Parts that are joined by a separator can be told apart if no part has a separator in it. If their
number is known then it is enough that this holds on one of two sides: a part with a separator in it
leaves too few of them for the others.

## Main results

* `append_mark_inj`, `append_run_inj` : a part ends at the first separator, or at the first element
  of another class.
* `append_eq_append_cons` : where a list is cut that is made of two others.
* `intercalate_inj`, `intercalate_inj_of_length` : parts are told apart.
* `KeySpace.separator_mem_indexKey` : the keys of an entity have separators in them.
-/

namespace QueryCache

section Lists

variable {α : Type} {a : α}

/-- Two lists that begin with parts free of a mark, each followed by the mark, agree in these
parts. -/
theorem append_mark_inj {r r' : List α} :
    (x y : List α) → a ∉ x → a ∉ y → x ++ a :: r = y ++ a :: r' → x = y ∧ r = r'
  | [], [], _, _, h => ⟨rfl, (List.cons.inj h).2⟩
  | [], b :: y, _, hy, h => absurd (List.cons.inj h).1 fun hab => hy (hab ▸ List.mem_cons_self)
  | b :: x, [], hx, _, h =>
      absurd (List.cons.inj h).1 fun hba => hx (hba ▸ List.mem_cons_self)
  | b :: x, c :: y, hx, hy, h => by
      obtain ⟨hbc, htail⟩ := List.cons.inj h
      obtain ⟨hxy, hr⟩ := append_mark_inj x y (fun ha => hx (List.mem_cons_of_mem b ha))
        (fun ha => hy (List.mem_cons_of_mem c ha)) htail
      exact ⟨by rw [hbc, hxy], hr⟩

/-- Two lists that begin with parts of one class, each followed by something of another class or by
nothing, agree in these parts. -/
theorem append_run_inj {p : α → Bool} {x y r r' : List α} (hx : ∀ b ∈ x, p b = true)
    (hy : ∀ b ∈ y, p b = true) (hr : ∀ b ∈ r.head?, p b = false)
    (hr' : ∀ b ∈ r'.head?, p b = false) (h : x ++ r = y ++ r') : x = y ∧ r = r' := by
  have hrun {x r : List α} (hx : ∀ b ∈ x, p b = true) (hr : ∀ b ∈ r.head?, p b = false) :
      (x ++ r).takeWhile p = x := by
    rw [List.takeWhile_append_of_pos hx]
    rcases r with _ | ⟨b, r⟩
    · simp
    · simp [hr b rfl]
  have hxy : x = y := by rw [← hrun hx hr, h, hrun hy hr']
  rw [hxy] at h
  exact ⟨hxy, List.append_cancel_left h⟩

/-- A list that is cut at an element and made of two others is cut in one of them. -/
theorem append_eq_append_cons {x y u v : List α} (h : x ++ y = u ++ a :: v) :
    (∃ r, x = u ++ a :: r ∧ v = r ++ y) ∨ ∃ r, u = x ++ r ∧ y = r ++ a :: v := by
  rcases List.append_eq_append_iff.1 h with ⟨r, hu, hy⟩ | ⟨r, hx, hv⟩
  · exact .inr ⟨r, hu, hy⟩
  · cases r with
    | nil => exact .inr ⟨[], by rw [hx, List.append_nil, List.append_nil], hv.symm⟩
    | cons b r =>
      obtain ⟨rfl, rfl⟩ := List.cons.inj hv
      exact .inl ⟨r, hx, rfl⟩

variable [DecidableEq α]

/-- What is not in the separator of a joined list is in the parts. -/
theorem count_intercalate_of_notMem {sep : List α} (h : a ∉ sep) (parts : List (List α)) :
    (sep.intercalate parts).count a = parts.flatten.count a := by
  match parts with
  | [] => rfl
  | [part] => simp
  | part :: next :: rest =>
    rw [List.intercalate_cons_cons, List.count_append, List.count_append, List.count_eq_zero.2 h,
      count_intercalate_of_notMem h (next :: rest), List.flatten_cons, List.count_append]
    simp

/-- The separators in a joined list: those between the parts, and those in them. -/
theorem count_intercalate (part : List α) (rest : List (List α)) :
    ([a].intercalate (part :: rest)).count a = rest.length + (part :: rest).flatten.count a := by
  induction rest generalizing part with
  | nil => simp
  | cons next rest ih =>
    simp only [List.intercalate_cons_cons, List.count_append, ih, List.flatten_cons,
      List.length_cons, List.count_singleton_self]
    omega

theorem count_flatten_eq_zero {parts : List (List α)} :
    parts.flatten.count a = 0 ↔ ∀ part ∈ parts, a ∉ part := by
  rw [List.count_eq_zero, List.mem_flatten]
  exact ⟨fun h part hpart ha => h ⟨part, hpart, ha⟩, fun h ⟨part, hpart, ha⟩ => h part hpart ha⟩

end Lists

/-! ### Joined texts -/

variable {xs ys : List String}

theorem toList_intercalate_keySeparator (parts : List String) :
    (keySeparator.intercalate parts).toList = ['_'].intercalate (parts.map String.toList) := by
  rw [String.toList_intercalate]
  rfl

theorem map_toList_injective : Function.Injective (List.map String.toList) :=
  List.map_injective_iff.2 fun _ _ => String.toList_inj.1

/-- **Parts without separators are told apart.** -/
theorem intercalate_inj (hxs : ∀ x ∈ xs, '_' ∉ x.toList) (hys : ∀ y ∈ ys, '_' ∉ y.toList)
    (hne : xs ≠ []) (hne' : ys ≠ [])
    (h : keySeparator.intercalate xs = keySeparator.intercalate ys) : xs = ys := by
  have hsplit {parts : List String} (hparts : ∀ part ∈ parts, '_' ∉ part.toList)
      (hne : parts ≠ []) :
      (keySeparator.intercalate parts).toList.splitOn '_' = parts.map String.toList := by
    rw [toList_intercalate_keySeparator]
    refine List.splitOn_intercalate '_' (fun part hpart => ?_) (by simpa using hne)
    obtain ⟨part, hmem, rfl⟩ := List.mem_map.1 hpart
    exact hparts part hmem
  exact map_toList_injective (by rw [← hsplit hxs hne, ← hsplit hys hne', h])

/-- **As many parts are told apart** if those on one side are without separators. -/
theorem intercalate_inj_of_length (hlength : xs.length = ys.length)
    (hxs : ∀ x ∈ xs, '_' ∉ x.toList)
    (h : keySeparator.intercalate xs = keySeparator.intercalate ys) : xs = ys := by
  rcases xs with _ | ⟨x, xs⟩ <;> rcases ys with _ | ⟨y, ys⟩
  · rfl
  · cases hlength
  · cases hlength
  have hcount := congrArg (fun text => text.toList.count '_') h
  simp only [toList_intercalate_keySeparator, List.map_cons, count_intercalate,
    List.length_map] at hcount
  have hfree : (x.toList :: xs.map String.toList).flatten.count '_' = 0 :=
    count_flatten_eq_zero.2 (by simpa using hxs)
  rw [List.length_cons, List.length_cons] at hlength
  have hfree' := count_flatten_eq_zero.1 (show
    (y.toList :: ys.map String.toList).flatten.count '_' = 0 by omega)
  exact intercalate_inj hxs (by simpa using hfree') (List.cons_ne_nil _ _) (List.cons_ne_nil _ _) h

/-- The keys of an entity have separators behind the names of database and entity. -/
theorem KeySpace.separator_mem_indexKey (space : KeySpace) (values : String) :
    '_' ∈ (space.indexKey values).toList := by
  rw [indexKey, scope, String.toList_append, String.toList_append, List.mem_append, List.mem_append]
  exact .inl (.inr (by decide))

end QueryCache
