import QueryCache.Proofs.Json.Numbers
import QueryCache.Signature

/-!
# The texts of values

Compact JSON can be read in one way only: where a value ends is seen from what has been read of it,
for numbers from the next character. So different values have different texts. In keys strings stand
without quotes, and there two values have one token if one of them is a string with the other one's
text.

## Main definitions

* `Json.Finite` : all numbers in a value are finite.
* `Json.Alike` : values that keys do not tell apart.

## Main results

* `Json.apart_render` : a text at the beginning of a longer one is the text of one value only.
* `Json.render_inj` : different values have different texts.
* `Json.token_eq_iff` : which values have one token.
-/

namespace QueryCache.Json

/-! ### Strings -/

/-- The characters that are escaped in strings. -/
def escaped : List Char := '"' :: '\\' :: (List.range 32).map Char.ofNat

theorem escapeChar_of_notMem {c : Char} (h : c ∉ escaped) : escapeChar c = [c] := by
  have hcontrol : ¬ c.toNat < 32 := fun hlt =>
    h (.tail _ (.tail _ (List.mem_map.2 ⟨c.toNat, List.mem_range.2 hlt, Char.ofNat_toNat c⟩)))
  have hne {d : Char} (hd : d ∈ escaped) : c ≠ d := fun hcd => h (hcd ▸ hd)
  simp [escapeChar, hcontrol, hne (d := '"') (by decide), hne (d := '\\') (by decide),
    hne (d := '\x08') (by decide), hne (d := '\x09') (by decide), hne (d := '\x0a') (by decide),
    hne (d := '\x0c') (by decide), hne (d := '\x0d') (by decide)]

theorem head_escapeChar : ∀ c ∈ escaped, (escapeChar c).head? = some '\\' := by
  have hall : (escaped.all fun c => (escapeChar c).head? == some '\\') = true := by rfl
  exact fun c hc => beq_iff_eq.1 (List.all_eq_true.1 hall c hc)

/-- No escape is the beginning of another one. -/
theorem eq_of_prefix_escapeChar {c d : Char} (hc : c ∈ escaped) (hd : d ∈ escaped)
    (h : escapeChar c <+: escapeChar d) : c = d := by
  have hall : (escaped.all fun c => escaped.all fun d =>
      !(escapeChar c).isPrefixOf (escapeChar d) || c == d) = true := by
    decide +kernel
  have hcd := List.all_eq_true.1 (List.all_eq_true.1 hall c hc) d hd
  rw [List.isPrefixOf_iff_prefix.2 h] at hcd
  exact beq_iff_eq.1 hcd

/-- The form of a character can be told from what follows it. -/
theorem escapeChar_append_inj {c d : Char} {r r' : List Char}
    (h : escapeChar c ++ r = escapeChar d ++ r') : c = d ∧ r = r' := by
  have hmixed {c d : Char} {r r' : List Char} (hc : c ∈ escaped) (hd : d ∉ escaped) :
      escapeChar c ++ r ≠ escapeChar d ++ r' := by
    intro h
    obtain ⟨rest, hcons⟩ := List.head?_eq_some_iff.1 (head_escapeChar c hc)
    rw [hcons, escapeChar_of_notMem hd] at h
    exact hd ((List.cons.inj h).1 ▸ .tail _ (.head _))
  have hcd : c = d := by
    by_cases hc : c ∈ escaped <;> by_cases hd : d ∈ escaped
    · rcases List.prefix_or_prefix_of_prefix (List.prefix_append (escapeChar c) r)
        (h ▸ List.prefix_append (escapeChar d) r') with hprefix | hprefix
      · exact eq_of_prefix_escapeChar hc hd hprefix
      · exact (eq_of_prefix_escapeChar hd hc hprefix).symm
    · exact (hmixed hc hd h).elim
    · exact (hmixed hd hc h.symm).elim
    · rw [escapeChar_of_notMem hc, escapeChar_of_notMem hd] at h
      exact (List.cons.inj h).1
  exact ⟨hcd, List.append_cancel_left (hcd ▸ h)⟩

theorem escapeChar_append_ne_quote {c : Char} {r r' : List Char} :
    escapeChar c ++ r ≠ '"' :: r' := by
  intro h
  by_cases hc : c ∈ escaped
  · obtain ⟨rest, hcons⟩ := List.head?_eq_some_iff.1 (head_escapeChar c hc)
    rw [hcons] at h
    cases h
  · rw [escapeChar_of_notMem hc] at h
    exact hc ((List.cons.inj h).1 ▸ .head _)

/-- The closing quote of a string is found. -/
theorem escaped_append_inj {r r' : List Char} : (cs ds : List Char) →
    cs.flatMap escapeChar ++ '"' :: r = ds.flatMap escapeChar ++ '"' :: r' → cs = ds ∧ r = r'
  | [], [], h => ⟨rfl, (List.cons.inj h).2⟩
  | [], d :: ds, h => by
      rw [List.flatMap_cons, List.append_assoc] at h
      exact (escapeChar_append_ne_quote h.symm).elim
  | c :: cs, [], h => by
      rw [List.flatMap_cons, List.append_assoc] at h
      exact (escapeChar_append_ne_quote h).elim
  | c :: cs, d :: ds, h => by
      rw [List.flatMap_cons, List.flatMap_cons, List.append_assoc, List.append_assoc] at h
      obtain ⟨hcd, htail⟩ := escapeChar_append_inj h
      obtain ⟨hcs, hr⟩ := escaped_append_inj cs ds htail
      exact ⟨by rw [hcd, hcs], hr⟩

theorem toList_renderString (s : String) :
    (renderString s).toList = '"' :: (s.toList.flatMap escapeChar ++ ['"']) := by
  simp [renderString]

/-- A string in quotes ends at its closing quote. -/
theorem renderString_append_inj {s t : String} {r r' : List Char}
    (h : (renderString s).toList ++ r = (renderString t).toList ++ r') : s = t ∧ r = r' := by
  simp only [toList_renderString, List.cons_append, List.append_assoc, List.nil_append] at h
  obtain ⟨hst, hr⟩ := escaped_append_inj _ _ (List.cons.inj h).2
  exact ⟨String.toList_inj.1 hst, hr⟩

/-! ### Lists in brackets -/

/-- Nothing in front of this text could be the rest of a number. -/
def Follows (r : List Char) : Prop := ∀ c ∈ r.head?, Numeral.isNumeric c = false

section Brackets

variable {α : Type} {P : α → Prop} {f : α → List Char} {close : Char}

/-- The text of an item is told apart from that of any other item, whatever follows. -/
def Apart (P : α → Prop) (f : α → List Char) (x : α) : Prop :=
  ∀ y, P y → ∀ r r', Follows r → Follows r' → f x ++ r = f y ++ r' → x = y ∧ r = r'

/-- The rest of a list, each item after a comma. -/
def tailText (f : α → List Char) (xs : List α) : List Char := xs.flatMap fun x => ',' :: f x

theorem follows_tailText (hclose : Numeral.isNumeric close = false) (xs : List α) (r : List Char) :
    Follows (tailText f xs ++ close :: r) := by
  rcases xs with _ | ⟨x, xs⟩
  · rintro c ⟨⟩
    exact hclose
  · rintro c ⟨⟩
    rfl

theorem tailText_inj (hclose : Numeral.isNumeric close = false) (hcomma : close ≠ ',')
    {r r' : List Char} : (xs ys : List α) → (∀ x ∈ xs, Apart P f x) → (∀ y ∈ ys, P y) →
    tailText f xs ++ close :: r = tailText f ys ++ close :: r' → xs = ys ∧ r = r'
  | [], [], _, _, h => ⟨rfl, (List.cons.inj h).2⟩
  | [], _ :: _, _, _, h => (hcomma (List.cons.inj h).1).elim
  | _ :: _, [], _, _, h => (hcomma (List.cons.inj h).1.symm).elim
  | x :: xs, y :: ys, hxs, hys, h => by
      simp only [tailText, List.flatMap_cons, List.cons_append, List.append_assoc] at h
      obtain ⟨hx, hxs⟩ := List.forall_mem_cons.1 hxs
      obtain ⟨hy, hys⟩ := List.forall_mem_cons.1 hys
      obtain ⟨hxy, htail⟩ := hx y hy _ _ (follows_tailText hclose xs r)
        (follows_tailText hclose ys r') (List.cons.inj h).2
      obtain ⟨hrest, hr⟩ := tailText_inj hclose hcomma xs ys hxs hys htail
      exact ⟨by rw [hxy, hrest], hr⟩

/-- Items between commas. -/
theorem toList_intercalate_comma {g : α → String} (x : α) (xs : List α) :
    (",".intercalate ((x :: xs).map g)).toList =
      (g x).toList ++ tailText (fun x => (g x).toList) xs := by
  induction xs generalizing x with
  | nil => simp [tailText]
  | cons y ys ih =>
    rw [List.map_cons, List.map_cons, String.intercalate_cons_cons, ← List.map_cons,
      String.toList_append, String.toList_append, ih y]
    simp [tailText]

/-- **A list in brackets ends at its closing bracket**, and its items are told apart. -/
theorem bracketed_inj {g : α → String} (hclose : Numeral.isNumeric close = false)
    (hcomma : close ≠ ',') {r r' : List Char} {xs ys : List α}
    (hopen : ∀ x, P x → ∃ c rest, (g x).toList = c :: rest ∧ c ≠ close)
    (hxs : ∀ x ∈ xs, P x ∧ Apart P (fun x => (g x).toList) x) (hys : ∀ y ∈ ys, P y)
    (h : (",".intercalate (xs.map g)).toList ++ close :: r =
      (",".intercalate (ys.map g)).toList ++ close :: r') : xs = ys ∧ r = r' := by
  have hempty {x : α} {xs : List α} {r r' : List Char} (hx : P x) :
      (",".intercalate ((x :: xs).map g)).toList ++ close :: r ≠ close :: r' := by
    intro h
    obtain ⟨c, rest, hcons, hc⟩ := hopen x hx
    rw [toList_intercalate_comma, hcons] at h
    exact hc (List.cons.inj h).1
  rcases xs with _ | ⟨x, xs⟩ <;> rcases ys with _ | ⟨y, ys⟩
  · exact ⟨rfl, (List.cons.inj h).2⟩
  · exact (hempty (hys y (.head _)) h.symm).elim
  · exact (hempty (hxs x (.head _)).1 h).elim
  · rw [toList_intercalate_comma, toList_intercalate_comma, List.append_assoc,
      List.append_assoc] at h
    obtain ⟨hxy, htail⟩ := (hxs x (.head _)).2 y (hys y (.head _)) _ _
      (follows_tailText hclose xs r) (follows_tailText hclose ys r') h
    obtain ⟨hrest, hr⟩ := tailText_inj hclose hcomma xs ys
      (fun x hx => (hxs x (.tail _ hx)).2) (fun y hy => hys y (.tail _ hy)) htail
    exact ⟨by rw [hxy, hrest], hr⟩

end Brackets

/-! ### Values -/

/-- All numbers in a value are finite. -/
inductive Finite : Json → Prop
  | null : Finite null
  | bool (b) : Finite (bool b)
  | num {n} (finite : n.isFinite = true) : Finite (num n)
  | str (s) : Finite (str s)
  | arr {items} (finite : ∀ v ∈ items, Finite v) : Finite (arr items)
  | obj {members} (finite : ∀ m ∈ members, Finite m.2) : Finite (obj members)

/-- The character with which the text of a value begins; for a number a zero stands for all of its
characters. -/
def opening : Json → Char
  | null => 'n'
  | bool true => 't'
  | bool false => 'f'
  | num _ => '0'
  | str _ => '"'
  | arr _ => '['
  | obj _ => '\x7b'

/-- The text of a member of an object. -/
def memberText (m : String × Json) : String := renderString m.1 ++ ":" ++ render m.2

theorem renderItems_eq_map (items : List Json) : renderItems items = items.map render := by
  induction items with
  | nil => rfl
  | cons v rest ih => rw [renderItems, ih, List.map_cons]

theorem renderMembers_eq_map (members : List (String × Json)) :
    renderMembers members = members.map memberText := by
  induction members with
  | nil => rfl
  | cons m rest ih => rw [renderMembers, ih, List.map_cons, memberText]

variable {v w : Json} {r r' : List Char}

theorem toList_render_arr (items : List Json) : (render (.arr items)).toList ++ r =
    '[' :: ((",".intercalate (items.map render)).toList ++ ']' :: r) := by
  simp [render, renderItems_eq_map]

theorem toList_render_obj (members : List (String × Json)) : (render (.obj members)).toList ++ r =
    '\x7b' :: ((",".intercalate (members.map memberText)).toList ++ '\x7d' :: r) := by
  simp [render, renderMembers_eq_map]

theorem exists_cons_render (hv : v.Finite) : ∃ c rest, v.render.toList = c :: rest ∧
    v.opening = if Numeral.isNumeric c then '0' else c := by
  cases hv with
  | null => exact ⟨'n', "ull".toList, rfl, rfl⟩
  | bool b =>
    cases b
    · exact ⟨'f', "alse".toList, rfl, rfl⟩
    · exact ⟨'t', "rue".toList, rfl, rfl⟩
  | @num n finite =>
    obtain ⟨c, rest, hcons⟩ := List.exists_cons_of_ne_nil (Number.render_ne_nil finite)
    have hnumeric := Number.isNumeric_of_mem_render finite c (by rw [hcons]; exact .head _)
    exact ⟨c, rest, hcons, by rw [hnumeric]; rfl⟩
  | str s => exact ⟨'"', _, toList_renderString s, rfl⟩
  | @arr items =>
    have htext := toList_render_arr (r := []) items
    rw [List.append_nil] at htext
    exact ⟨'[', _, htext, rfl⟩
  | @obj members =>
    have htext := toList_render_obj (r := []) members
    rw [List.append_nil] at htext
    exact ⟨'\x7b', _, htext, rfl⟩

/-- The text of a value does not begin with a closing bracket. -/
theorem exists_cons_render_ne (hv : v.Finite) :
    ∃ c rest, v.render.toList = c :: rest ∧ c ≠ ']' := by
  obtain ⟨c, rest, hcons, hopening⟩ := exists_cons_render hv
  refine ⟨c, rest, hcons, ?_⟩
  rintro rfl
  cases hv with
  | bool b => cases b <;> cases hopening
  | _ => cases hopening

theorem opening_eq (hv : v.Finite) (hw : w.Finite)
    (h : v.render.toList ++ r = w.render.toList ++ r') : v.opening = w.opening := by
  obtain ⟨c, rest, hcons, hopening⟩ := exists_cons_render hv
  obtain ⟨c', rest', hcons', hopening'⟩ := exists_cons_render hw
  rw [hcons, hcons'] at h
  rw [hopening, hopening', (List.cons.inj h).1]

theorem toList_memberText (m : String × Json) : (memberText m).toList =
    '"' :: (m.1.toList.flatMap escapeChar ++ '"' :: ':' :: m.2.render.toList) := by
  simp [memberText, toList_renderString]

/-- Members are told apart if their values are. -/
theorem apart_memberText {m : String × Json} (h : Apart Finite (fun v => v.render.toList) m.2) :
    Apart (fun m => m.2.Finite) (fun m => (memberText m).toList) m := by
  intro m' hm' r r' hr hr' heq
  simp only [memberText, String.toList_append, List.append_assoc] at heq
  obtain ⟨hkey, hvalue⟩ := renderString_append_inj heq
  obtain ⟨hvalue, hrest⟩ := h m'.2 hm' r r' hr hr' (List.append_cancel_left hvalue)
  exact ⟨Prod.ext hkey hvalue, hrest⟩

/-- **A text at the beginning of a longer one** is the text of one value only, and ends at one place
only, unless it could be a number that goes on. -/
theorem apart_render (hv : v.Finite) : Apart Finite (fun v => v.render.toList) v := by
  -- Values of different kinds begin differently, so only values of one kind are to be compared.
  induction hv with
  | null =>
    intro w hw r r' _ _ h
    have hopening := opening_eq .null hw h
    cases hw with
    | null => exact ⟨rfl, List.append_cancel_left h⟩
    | bool b => cases b <;> cases hopening
    | _ => cases hopening
  | bool b =>
    intro w hw r r' _ _ h
    have hopening := opening_eq (.bool b) hw h
    cases hw with
    | bool b' =>
      obtain rfl : b = b' := by cases b <;> cases b' <;> first | rfl | cases hopening
      exact ⟨rfl, List.append_cancel_left h⟩
    | _ => cases b <;> cases hopening
  | num finite =>
    intro w hw r r' hr hr' h
    have hopening := opening_eq (.num finite) hw h
    cases hw with
    | num finite' =>
      obtain ⟨htext, hrest⟩ := append_run_inj (Number.isNumeric_of_mem_render finite)
        (Number.isNumeric_of_mem_render finite') hr hr' h
      exact ⟨congrArg Json.num (Number.render_inj finite finite' (String.toList_inj.1 htext)),
        hrest⟩
    | bool b => cases b <;> cases hopening
    | _ => cases hopening
  | str s =>
    intro w hw r r' _ _ h
    have hopening := opening_eq (.str s) hw h
    cases hw with
    | str t =>
      obtain ⟨hst, hrest⟩ := renderString_append_inj h
      exact ⟨congrArg Json.str hst, hrest⟩
    | bool b => cases b <;> cases hopening
    | _ => cases hopening
  | @arr items finite ih =>
    intro w hw r r' _ _ h
    have hopening := opening_eq (.arr finite) hw h
    cases hw with
    | @arr items' finite' =>
      dsimp only at h
      rw [toList_render_arr, toList_render_arr] at h
      obtain ⟨hitems, hrest⟩ := bracketed_inj (by rfl) (by decide) (fun _ => exists_cons_render_ne)
        (fun x hx => ⟨finite x hx, ih x hx⟩) finite' (List.cons.inj h).2
      exact ⟨congrArg Json.arr hitems, hrest⟩
    | bool b => cases b <;> cases hopening
    | _ => cases hopening
  | @obj members finite ih =>
    intro w hw r r' _ _ h
    have hopening := opening_eq (.obj finite) hw h
    cases hw with
    | @obj members' finite' =>
      dsimp only at h
      rw [toList_render_obj, toList_render_obj] at h
      obtain ⟨hmembers, hrest⟩ := bracketed_inj (by rfl) (by decide)
        (fun m _ => ⟨'"', _, toList_memberText m, by decide⟩)
        (fun m hm => ⟨finite m hm, apart_memberText (ih m hm)⟩) finite' (List.cons.inj h).2
      exact ⟨congrArg Json.obj hmembers, hrest⟩
    | bool b => cases b <;> cases hopening
    | _ => cases hopening

/-- **Different values have different texts.** -/
theorem render_inj (hv : v.Finite) (hw : w.Finite) (h : v.render = w.render) : v = w := by
  have hfollows : Follows [] := by
    rintro c ⟨⟩
  exact (apart_render hv w hw [] [] hfollows hfollows (by simp only [h])).1

/-! ### Tokens -/

/-- Values that keys do not tell apart: the same value, or a string and the value whose text it
is. -/
inductive Alike : Json → Json → Prop
  | refl (value : Json) : Alike value value
  | text_left {value : Json} (notString : ∀ s, value ≠ str s) : Alike (str value.render) value
  | text_right {value : Json} (notString : ∀ s, value ≠ str s) : Alike value (str value.render)

theorem token_of_ne_str (h : ∀ s, v ≠ str s) : v.token = v.render := by
  cases v with
  | str s => exact (h s rfl).elim
  | _ => rfl

/-- **Which values have one token.** -/
theorem token_eq_iff (hv : v.Finite) (hw : w.Finite) : v.token = w.token ↔ Alike v w := by
  constructor
  · intro h
    by_cases hvs : ∃ s, v = str s <;> by_cases hws : ∃ t, w = str t
    · obtain ⟨s, rfl⟩ := hvs
      obtain ⟨t, rfl⟩ := hws
      rw [show s = t from h]
      exact .refl _
    · obtain ⟨s, rfl⟩ := hvs
      have hws := not_exists.1 hws
      rw [token_of_ne_str hws] at h
      rw [show s = w.render from h]
      exact .text_left hws
    · obtain ⟨t, rfl⟩ := hws
      have hvs := not_exists.1 hvs
      rw [token_of_ne_str hvs] at h
      rw [show t = v.render from h.symm]
      exact .text_right hvs
    · rw [token_of_ne_str (not_exists.1 hvs), token_of_ne_str (not_exists.1 hws)] at h
      rw [render_inj hv hw h]
      exact .refl _
  · rintro (_ | h | h)
    · rfl
    · exact (token_of_ne_str h).symm
    · exact token_of_ne_str h

end QueryCache.Json
