import SealedSky.Js.JsonRoundtrip

/-!
# JSON texts that were cut off

A reader takes the same value off a text when more is written behind it, as long as the value does not
end with the text. An array ends with its bracket, so no proper start of its text is JSON.

* `extends_text` — a text read with more behind it.
* `parse_cut` — an array that was cut off, also inside a character, is refused.
-/
namespace SealedSky.Js

/-! ## More text behind what is read -/

/-- What is read off a text is read the same with more behind it. -/
def Extends {α : Type} (read : JsString → Option (α × JsString)) : Prop :=
  ∀ s x r q, read s = some (x, r) → read (s ++ q) = some (x, r ++ q)

theorem next_extends : Extends next := by
  intro s u r q h
  unfold next skipSpace at h ⊢
  split at h
  · cases h
  · rename_i hs
    cases h
    rw [List.dropWhile_append, hs]
    rfl

theorem pushUnit_append {u : UInt16} {p p' : Option (JsString × JsString)} {x r q : JsString}
    (h : pushUnit u p = some (x, r)) (hp : ∀ y, p = some (y, r) → p' = some (y, r ++ q)) :
    pushUnit u p' = some (x, r ++ q) := by
  obtain ⟨y, hy, rfl⟩ := pushUnit_eq_some h
  rw [hp y hy]
  rfl

theorem stringBody_extends : Extends stringBody := by
  intro s
  fun_induction stringBody s with
  | case1 =>
    rintro x r q ⟨⟩
  | case2 t =>
    rintro x r q ⟨⟩
    exact stringBody_quote (t ++ q)
  | case3 =>
    rintro x r q ⟨⟩
  | case4 a b c d t _ ih =>
    intro x r q h
    obtain ⟨u, hu, hpush⟩ := Option.bind_eq_some_iff.1 h
    rw [stringBody.eq_def]
    simp only [List.cons_append, if_neg (show ¬ (92 : UInt16) = 34 by decide), if_true, hu,
      Option.bind_some]
    exact pushUnit_append hpush fun y hy => ih y r q hy
  | case5 =>
    rintro x r q ⟨⟩
  | case6 c t hc _ ih =>
    intro x r q h
    obtain ⟨u, hu, hpush⟩ := Option.bind_eq_some_iff.1 h
    rw [List.cons_append, List.cons_append, stringBody_escape hc hu]
    exact pushUnit_append hpush fun y hy => ih y r q hy
  | case7 =>
    rintro x r q ⟨⟩
  | case8 u t hquote hback hctl ih =>
    intro x r q h
    rw [List.cons_append, stringBody_plain hquote hback (Nat.not_lt.1 hctl)]
    exact pushUnit_append h fun y hy => ih y r q hy

theorem word_extends (w : JsString) (v : JsValue) : Extends (word w v) := by
  intro s v' r q h
  unfold word at h ⊢
  split at h
  · rename_i htake
    cases h
    have hlen : w.length ≤ s.length := by
      have hw := congrArg List.length htake
      rw [List.length_take] at hw
      omega
    rw [List.take_append_of_le_length hlen, List.drop_append_of_le_length hlen, if_pos htake]
  · cases h

theorem number_append {s r : JsString} {v : JsValue} (h : number s = some (v, r)) (hr : r ≠ [])
    (q : JsString) : number (s ++ q) = some (v, r ++ q) := by
  obtain ⟨x, hx, heq⟩ := Option.map_eq_some_iff.1 h
  obtain ⟨rfl, hrest⟩ := Prod.mk.inj heq
  have hsplit := List.takeWhile_append_dropWhile (p := isNumberUnit) (l := s)
  have hlen : (s.takeWhile isNumberUnit).length ≠ s.length := by
    have hlen := congrArg List.length hsplit
    rw [List.length_append, hrest] at hlen
    have hpos := List.length_pos_of_ne_nil hr
    omega
  have hempty : r.isEmpty = false := by
    rw [List.isEmpty_eq_false_iff]
    exact hr
  rw [number, List.takeWhile_append, if_neg hlen, List.dropWhile_append, hrest, hempty, hx]
  rfl

section
variable {α : Type} {close : UInt16} {more : JsString → Option (List α × JsString)}

theorem bracketed_extends (hmore : Extends more) (wrap : List α → JsValue) :
    Extends (bracketed close more wrap) := by
  intro s v r q h
  obtain ⟨u, t, hnext, h⟩ := bracketed_eq_some.1 h
  refine bracketed_eq_some.2 ⟨u, t ++ q, next_extends _ _ _ q hnext, ?_⟩
  obtain ⟨hclose, hv, rfl⟩ | ⟨hclose, xs, hxs, hv⟩ := h
  · exact .inl ⟨hclose, hv, rfl⟩
  · exact .inr ⟨hclose, xs, hmore _ _ _ q hxs, hv⟩

theorem followed_extends (hmore : Extends more) (x : α) : Extends (followed close more x) := by
  intro s xs r q h
  obtain ⟨u, t, hnext, h⟩ := followed_eq_some.1 h
  refine followed_eq_some.2 ⟨u, t ++ q, next_extends _ _ _ q hnext, ?_⟩
  obtain ⟨hclose, hx, rfl⟩ | ⟨hclose, hcomma, ys, hys, hx⟩ := h
  · exact .inl ⟨hclose, hx, rfl⟩
  · exact .inr ⟨hclose, hcomma, ys, hmore _ _ _ q hys, hx⟩

theorem followed_ne_nil {x : α} {xs : List α} {s r : JsString}
    (h : followed close more x s = some (xs, r)) : s ≠ [] := by
  rintro rfl
  cases h

end

theorem memberName_extends : Extends memberName := by
  intro s k r q h
  obtain ⟨t, t', hnext, hk, hcolon⟩ := memberName_eq_some.1 h
  exact memberName_eq_some.2 ⟨t ++ q, t' ++ q, next_extends _ _ _ q hnext,
    stringBody_extends _ _ _ q hk, next_extends _ _ _ q hcolon⟩

/-- **A text is read the same with more behind it**, where a number does not go on. -/
theorem extends_text (f : ℕ) :
    (∀ s v r q, value f s = some (v, r) → (r ≠ [] ∨ ∀ x, v ≠ .num x) →
        value f (s ++ q) = some (v, r ++ q)) ∧
      Extends (elements f) ∧ Extends (members f) := by
  induction f with
  | zero =>
    refine ⟨?_, ?_, ?_⟩
    · intro s v r q h
      cases h
    · intro s vs r q h
      cases h
    · intro s ms r q h
      cases h
  | succ f ih =>
    obtain ⟨ihv, ihe, ihm⟩ := ih
    refine ⟨?_, ?_, ?_⟩
    · intro s v r q h hend
      obtain ⟨u, t, hnext, hstarts⟩ := value_eq_some.1 h
      refine value_eq_some.2 ⟨u, t ++ q, next_extends _ _ _ q hnext, ?_⟩
      cases hstarts with
      | object h => exact .object (bracketed_extends ihm _ _ _ _ q h)
      | array h => exact .array (bracketed_extends ihe _ _ _ _ q h)
      | string h hv => exact .string (stringBody_extends _ _ _ q h) hv
      | word hw hu h => exact .word hw hu (word_extends _ _ _ _ _ q h)
      | number hu h =>
        refine .number hu (number_append h (hend.resolve_right fun hno => ?_) q)
        obtain ⟨x, -, heq⟩ := Option.map_eq_some_iff.1 h
        exact hno x (Prod.mk.inj heq).1.symm
    · intro s vs r q h
      obtain ⟨⟨v, t⟩, hv, hrest⟩ := Option.bind_eq_some_iff.1 h
      rw [elements, ihv _ _ _ q hv (Or.inl (followed_ne_nil hrest)), Option.bind_some]
      exact followed_extends ihe _ _ _ _ q hrest
    · intro s ms r q h
      obtain ⟨⟨k, t⟩, hk, h⟩ := Option.bind_eq_some_iff.1 h
      obtain ⟨⟨v, t'⟩, hv, hrest⟩ := Option.bind_eq_some_iff.1 h
      rw [members, memberName_extends _ _ _ q hk, Option.bind_some,
        ihv _ _ _ q hv (Or.inl (followed_ne_nil hrest)), Option.bind_some]
      exact followed_extends ihm _ _ _ _ q hrest

/-! ## Where an array ends -/

/-- The rest of a text is what stands at its end. -/
def Leaves {α : Type} (read : JsString → Option (α × JsString)) : Prop :=
  ∀ s x r, read s = some (x, r) → ∃ c, s = c ++ r

/-- And a closing bracket is in front of it. -/
def Closes {α : Type} (close : UInt16) (read : JsString → Option (α × JsString)) : Prop :=
  ∀ s x r, read s = some (x, r) → ∃ c, s = c ++ close :: r

theorem next_leaves {s r : JsString} {u : UInt16} (h : next s = some (u, r)) :
    ∃ c, s = c ++ u :: r := by
  unfold next skipSpace at h
  split at h
  · cases h
  · rename_i hs
    cases h
    exact ⟨s.takeWhile isJsonSpace, by rw [← hs, List.takeWhile_append_dropWhile]⟩

theorem stringBody_leaves : Leaves stringBody := by
  intro s
  fun_induction stringBody s with
  | case1 =>
    rintro x r ⟨⟩
  | case2 t =>
    rintro x r ⟨⟩
    exact ⟨[34], rfl⟩
  | case3 =>
    rintro x r ⟨⟩
  | case4 a b c d t _ ih =>
    intro x r h
    obtain ⟨u, -, hpush⟩ := Option.bind_eq_some_iff.1 h
    obtain ⟨y, hy, -⟩ := pushUnit_eq_some hpush
    obtain ⟨w, hw⟩ := ih y r hy
    exact ⟨92 :: 117 :: a :: b :: c :: d :: w, by rw [hw]; rfl⟩
  | case5 =>
    rintro x r ⟨⟩
  | case6 c t _ _ ih =>
    intro x r h
    obtain ⟨u, -, hpush⟩ := Option.bind_eq_some_iff.1 h
    obtain ⟨y, hy, -⟩ := pushUnit_eq_some hpush
    obtain ⟨w, hw⟩ := ih y r hy
    exact ⟨92 :: c :: w, by rw [hw]; rfl⟩
  | case7 =>
    rintro x r ⟨⟩
  | case8 u t _ _ _ ih =>
    intro x r h
    obtain ⟨y, hy, -⟩ := pushUnit_eq_some h
    obtain ⟨w, hw⟩ := ih y r hy
    exact ⟨u :: w, by rw [hw]; rfl⟩

theorem word_leaves (w : JsString) (v : JsValue) : Leaves (word w v) := by
  intro s v' r h
  unfold word at h
  split at h
  · cases h
    exact ⟨s.take w.length, (List.take_append_drop w.length s).symm⟩
  · cases h

theorem number_leaves : Leaves number := by
  intro s v r h
  obtain ⟨x, -, heq⟩ := Option.map_eq_some_iff.1 h
  cases heq
  exact ⟨s.takeWhile isNumberUnit, List.takeWhile_append_dropWhile.symm⟩

section
variable {α : Type} {close : UInt16} {more : JsString → Option (List α × JsString)}

theorem bracketed_closes (hmore : Closes close more) (wrap : List α → JsValue) :
    Closes close (bracketed close more wrap) := by
  intro s v r hread
  obtain ⟨u, t, hnext, h⟩ := bracketed_eq_some.1 hread
  obtain ⟨c, rfl⟩ := next_leaves hnext
  obtain ⟨hclose, -, rfl⟩ | ⟨-, xs, hxs, -⟩ := h
  · exact ⟨c, by rw [hclose]⟩
  · obtain ⟨d, hd⟩ := hmore _ _ _ hxs
    exact ⟨c ++ d, by rw [hd, List.append_assoc]⟩

theorem followed_closes (hmore : Closes close more) (x : α) :
    Closes close (followed close more x) := by
  intro s xs r hread
  obtain ⟨u, t, hnext, h⟩ := followed_eq_some.1 hread
  obtain ⟨c, rfl⟩ := next_leaves hnext
  obtain ⟨hclose, -, rfl⟩ | ⟨-, -, ys, hys, -⟩ := h
  · exact ⟨c, by rw [hclose]⟩
  · obtain ⟨d, rfl⟩ := hmore _ _ _ hys
    exact ⟨c ++ u :: d, by rw [List.append_assoc, List.cons_append]⟩

end

theorem memberName_leaves : Leaves memberName := by
  intro s k r h
  obtain ⟨t, t', hnext, hk, hcolon⟩ := memberName_eq_some.1 h
  obtain ⟨c, hs⟩ := next_leaves hnext
  obtain ⟨d, ht⟩ := stringBody_leaves _ _ _ hk
  obtain ⟨e, ht'⟩ := next_leaves hcolon
  exact ⟨c ++ 34 :: (d ++ (e ++ [58])), by simp [hs, ht, ht']⟩

theorem leaves_text (f : ℕ) :
    Leaves (value f) ∧ Closes 93 (elements f) ∧ Closes 125 (members f) := by
  have hleaves : ∀ {close : UInt16} {read : JsString → Option (JsValue × JsString)},
      Closes close read → Leaves read := by
    intro close read h s v r hread
    obtain ⟨c, rfl⟩ := h s v r hread
    exact ⟨c ++ [close], by rw [List.append_assoc, List.singleton_append]⟩
  induction f with
  | zero =>
    refine ⟨?_, ?_, ?_⟩
    all_goals
      intro s v r h
      cases h
  | succ f ih =>
    obtain ⟨ihv, ihe, ihm⟩ := ih
    refine ⟨?_, ?_, ?_⟩
    · intro s v r hread
      obtain ⟨u, t, hnext, hstarts⟩ := value_eq_some.1 hread
      obtain ⟨c, rfl⟩ := next_leaves hnext
      suffices hrest : ∃ d, u :: t = d ++ r by
        obtain ⟨d, hd⟩ := hrest
        exact ⟨c ++ d, by rw [hd, List.append_assoc]⟩
      have hbehind : ∀ {u : UInt16} {r : JsString}, (∃ d, t = d ++ r) → ∃ d, u :: t = d ++ r := by
        rintro u r ⟨d, rfl⟩
        exact ⟨u :: d, rfl⟩
      cases hstarts with
      | object h => exact hbehind (hleaves (bracketed_closes ihm _) _ _ _ h)
      | array h => exact hbehind (hleaves (bracketed_closes ihe _) _ _ _ h)
      | string h => exact hbehind (stringBody_leaves _ _ _ h)
      | word _ _ h => exact word_leaves _ _ _ _ _ h
      | number _ h => exact number_leaves _ _ _ h
    · intro s vs r hread
      obtain ⟨⟨v, t⟩, hv, hrest⟩ := Option.bind_eq_some_iff.1 hread
      obtain ⟨c, hs⟩ := ihv _ _ _ hv
      obtain ⟨d, ht⟩ : ∃ d, t = d ++ 93 :: r := followed_closes ihe _ _ _ _ hrest
      exact ⟨c ++ d, by rw [hs, ht, List.append_assoc]⟩
    · intro s ms r hread
      obtain ⟨⟨k, t⟩, hk, hread⟩ := Option.bind_eq_some_iff.1 hread
      obtain ⟨b, hs⟩ := memberName_leaves _ _ _ hk
      obtain ⟨⟨v, t'⟩, hv, hrest⟩ := Option.bind_eq_some_iff.1 hread
      obtain ⟨c, ht⟩ : ∃ c, t = c ++ t' := ihv _ _ _ hv
      obtain ⟨d, ht'⟩ : ∃ d, t' = d ++ 125 :: r := followed_closes ihm _ _ _ _ hrest
      exact ⟨b ++ (c ++ d), by rw [hs, ht, ht', List.append_assoc, List.append_assoc]⟩

/-! ## A text that was cut off -/

theorem skipSpace_eq_nil_iff {r : JsString} : skipSpace r = [] ↔ ∀ u ∈ r, isJsonSpace u = true :=
  List.dropWhile_eq_nil_iff

/-- Behind an array there is its bracket and then space, and never the mark of a broken character. -/
theorem no_mark_behind {s j c r : JsString} (h : s ++ j = c ++ 93 :: r) (hr : skipSpace r = [])
    (hj : ∀ u ∈ j, u = 0xFFFD) : j = [] := by
  by_contra hne
  have hlast := congrArg List.getLast? h
  rw [List.getLast?_append_of_ne_nil _ hne, List.getLast?_append_of_ne_nil _ (by simp)] at hlast
  obtain ⟨u, hu⟩ := Option.isSome_iff_exists.1 (List.getLast?_isSome.2 hne)
  rw [hu] at hlast
  have hmark : u = 0xFFFD := hj u (List.mem_of_getLast? hu)
  rcases List.mem_cons.1 (List.mem_of_getLast? hlast.symm) with rfl | hmem
  · exact absurd hmark (by decide)
  · have hspace := skipSpace_eq_nil_iff.1 hr u hmem
    rw [hmark] at hspace
    exact absurd hspace (by decide)

/-- A text of marks alone is no value. -/
theorem value_marks {j : JsString} (hj : ∀ u ∈ j, u = 0xFFFD) (f : ℕ) : value f j = none := by
  cases f with
  | zero => rfl
  | succ f =>
    cases j with
    | nil => rfl
    | cons u j =>
      obtain rfl := hj u List.mem_cons_self
      rw [value, next_cons (by decide)]
      rfl

/-- **An array that was cut off is refused**, also where the cut has left marks of a broken
character. -/
theorem parse_cut {t q j : JsString} {v : JsValue}
    (hread : value (2 * (t ++ q).length + 1) (t ++ q) = some (v, []))
    (harray : (t ++ q).head? = some 91) (hq : q ≠ []) (hj : ∀ u ∈ j, u = 0xFFFD) :
    parse (t ++ j) = none := by
  unfold parse
  cases hcut : value (2 * (t ++ j).length + 1) (t ++ j) with
  | none => rfl
  | some p =>
    obtain ⟨v', r⟩ := p
    refine if_neg fun hr => ?_
    cases t with
    | nil =>
      rw [List.nil_append, value_marks hj] at hcut
      cases hcut
    | cons u t =>
      obtain rfl : u = 91 := Option.some.inj harray
      have hclosed := hcut
      rw [List.cons_append, value_array] at hclosed
      obtain ⟨c, hc⟩ := bracketed_closes (leaves_text _).2.1 _ _ _ _ hclosed
      obtain rfl : j = [] := no_mark_behind hc hr hj
      -- the whole text would be read as far as the cut one, and is read to its end
      have hfuel := value_fuel (s := 91 :: t) (f := 2 * (91 :: t ++ q).length + 1) (by simp)
      rw [List.append_nil, ← hfuel, value_array] at hcut
      have hmore := bracketed_extends (extends_text _).2.1 _ _ _ _ q hcut
      rw [List.cons_append] at hread
      rw [← value_array, List.cons_append, hread] at hmore
      have hrest := (Prod.mk.inj (Option.some.inj hmore)).2
      exact hq (List.append_eq_nil_iff.1 hrest.symm).2

/-- The same, of a printed array. -/
theorem parse_stringify_cut {gap n : ℕ} {vs : List JsValue} {t q j : JsString}
    (h : stringify gap n (.arr vs) = t ++ q) (hq : q ≠ []) (hj : ∀ u ∈ j, u = 0xFFFD) :
    parse (t ++ j) = none := by
  have hread := value_stringify gap n (.arr vs) (2 * (stringify gap n (.arr vs)).length + 1) []
    (le_refl _) (by rintro _ ⟨⟩)
  have harray : (stringify gap n (.arr vs)).head? = some 91 := by
    rw [stringify]
    split <;> rfl
  rw [List.append_nil, h] at hread
  rw [h] at harray
  exact parse_cut hread harray hq hj

end SealedSky.Js
