import SealedSky.Js.Json

/-!
# `JSON.parse` of what `JSON.stringify` prints

What comes back is the value with `null` for every number that is not finite and without the members
that were `undefined`.

* `stringBody_quotedBody` — a quoted string is read back, lone surrogates included.
* `jsonNumber_toString` — a printed number is a number of JSON, and the same one.
* `parse_stringify` — the round trip of a value, with any gap.
* `get_asJson` — the properties of an object that comes back.
* `wellFormed_jsonText` — a printed text has no lone surrogates.
-/
namespace SealedSky.Js

open Sha256 Binary64

/-! ## Strings -/

theorem hexUnit_unicodeEscape (u : UInt16) : ∃ a b c d,
    unicodeEscape u = [92, 117, a, b, c, d] ∧ hexUnit a b c d = some u := by
  have hdigit : ∀ n < 16, radixDigit 16 (UInt16.ofNat (hexDigit n).toNat) = some n := by decide
  have hu : u.toNat < 65536 := u.toNat_lt
  have hhi : (UInt8.ofNat (u.toNat / 256)).toNat = u.toNat / 256 := by
    rw [UInt8.toNat_ofNat']
    omega
  have hlo : (UInt8.ofNat (u.toNat % 256)).toNat = u.toNat % 256 := by
    rw [UInt8.toNat_ofNat']
    omega
  refine ⟨_, _, _, _, rfl, ?_⟩
  unfold hexUnit radixInteger
  rw [if_neg (by simp), hhi, hlo]
  simp only [List.mapM_cons, List.mapM_nil, hdigit (u.toNat / 256 / 16) (by omega),
    hdigit (u.toNat / 256 % 16) (by omega), hdigit (u.toNat % 256 / 16) (by omega),
    hdigit (u.toNat % 256 % 16) (by omega)]
  have hvalue : Nat.ofDigits 16 [u.toNat % 256 % 16, u.toNat % 256 / 16, u.toNat / 256 % 16,
      u.toNat / 256 / 16] = u.toNat := by
    simp only [Nat.ofDigits_cons, Nat.ofDigits_nil]
    omega
  change some (UInt16.ofNat (Nat.ofDigits 16 [u.toNat % 256 % 16, u.toNat % 256 / 16,
    u.toNat / 256 % 16, u.toNat / 256 / 16])) = some u
  rw [hvalue, UInt16.ofNat_toNat]

theorem stringBody_plain {u : UInt16} (hquote : u ≠ 34) (hback : u ≠ 92) (hctl : 32 ≤ u.toNat)
    (t : JsString) : stringBody (u :: t) = pushUnit u (stringBody t) := by
  rw [stringBody.eq_def]
  simp only [if_neg hquote, if_neg hback, if_neg (Nat.not_lt.2 hctl)]

theorem stringBody_escape {c u : UInt16} (hc : c ≠ 117) (h : simpleEscape c = some u)
    (t : JsString) : stringBody (92 :: c :: t) = pushUnit u (stringBody t) := by
  rw [stringBody.eq_def]
  simp only [if_neg (show ¬ (92 : UInt16) = 34 by decide), if_true, if_neg hc, h, Option.bind_some]

theorem stringBody_quote (t : JsString) : stringBody (34 :: t) = some ([], t) := by
  rw [stringBody.eq_def]
  simp only [if_true]

theorem stringBody_quotedUnit (u : UInt16) (t : JsString) :
    stringBody (quotedUnit u ++ t) = pushUnit u (stringBody t) := by
  unfold quotedUnit
  split
  · subst u
    exact stringBody_escape (by decide) rfl t
  split
  · subst u
    exact stringBody_escape (by decide) rfl t
  split
  · subst u
    exact stringBody_escape (by decide) rfl t
  split
  · subst u
    exact stringBody_escape (by decide) rfl t
  split
  · subst u
    exact stringBody_escape (by decide) rfl t
  split
  · subst u
    exact stringBody_escape (by decide) rfl t
  split
  · subst u
    exact stringBody_escape (by decide) rfl t
  split
  · obtain ⟨a, b, c, d, htext, hread⟩ := hexUnit_unicodeEscape u
    rw [htext]
    simp only [List.cons_append, List.nil_append]
    rw [stringBody.eq_def]
    simp only [if_neg (show ¬ (92 : UInt16) = 34 by decide), if_true, hread, Option.bind_some]
  · rename_i hquote hback hplain
    simp only [Bool.or_eq_true, decide_eq_true_eq, not_or, not_lt] at hplain
    exact stringBody_plain hquote hback hplain.1.1 t

/-- **A quoted string is read back.** -/
theorem stringBody_quotedBody (s r : JsString) :
    stringBody (quotedBody s ++ 34 :: r) = some (s, r) := by
  fun_induction quotedBody s with
  | case1 =>
    rw [List.nil_append, stringBody_quote]
  | case2 u =>
    rw [stringBody_quotedUnit, stringBody_quote]
    rfl
  | case3 u v t hpair ih =>
    simp only [Bool.and_eq_true, isHigh, isLow, decide_eq_true_eq] at hpair
    have hne : ∀ w : UInt16, 128 ≤ w.toNat → w ≠ 34 ∧ w ≠ 92 := by
      intro w hw
      refine ⟨?_, ?_⟩
      all_goals
        rintro rfl
        exact absurd hw (by decide)
    obtain ⟨hu34, hu92⟩ := hne u (by omega)
    obtain ⟨hv34, hv92⟩ := hne v (by omega)
    rw [List.cons_append, List.cons_append, stringBody_plain hu34 hu92 (by omega),
      stringBody_plain hv34 hv92 (by omega), ih]
    rfl
  | case4 u v t hpair ih =>
    rw [List.append_assoc, stringBody_quotedUnit, ih]
    rfl

/-! ## Numbers -/

theorem digitsOf_head (n : ℕ) : (digitsOf n).head? ≠ some 0 := by
  intro h
  unfold digitsOf at h
  rw [List.head?_reverse] at h
  have hne : Nat.digits 10 n ≠ [] := fun hnil => by
    rw [hnil] at h
    cases h
  have hn : n ≠ 0 := Nat.digits_ne_nil_iff_ne_zero.1 hne
  rw [List.getLast?_eq_some_getLast hne] at h
  exact Nat.getLast_digit_ne_zero 10 hn (Option.some.inj h)

/-- Where the integer part of a text ends, and that digits follow a point. -/
theorem jsonNumber_of_split {ip : List ℕ} {tail : JsString} {v : ℚ} (hne : ip ≠ [])
    (hip : ∀ d ∈ ip, d < 10) (hzero : ip.head? ≠ some 0 ∨ ip.length = 1) (hnd : NoDigit tail)
    (hpoint : tail.head? = some 46 → (fractionDigits tail).1 ≠ [])
    (hread : unsignedDecimal (digitUnits ip ++ tail) = some v) (neg : Bool) :
    jsonNumber ((if neg then [45] else []) ++ (digitUnits ip ++ tail)) =
      some (if neg then (ofRat v).neg else ofRat v) := by
  obtain ⟨d, ds, rfl⟩ := List.exists_cons_of_ne_nil hne
  have hminus : minus ((if neg then [45] else []) ++ (digitUnits (d :: ds) ++ tail)) =
      (neg, digitUnits (d :: ds) ++ tail) := by
    have hd : UInt16.ofNat (48 + d) ≠ 45 :=
      (by decide : ∀ d < 10, UInt16.ofNat (48 + d) ≠ 45) d (hip d List.mem_cons_self)
    cases neg
    · exact if_neg hd
    · rfl
  unfold jsonNumber
  simp only [hminus, scanDigits_append hip hnd, hread]
  rw [if_neg]
  · rfl
  · rintro (h | h | h)
    · exact hne h
    · exact hzero.elim (fun hz => hz h.1) h.2
    · exact hpoint h.1 h.2

/-- The integer part of a printed number has no leading zero, and digits follow its point. -/
theorem layout_split {ds : List ℕ} (hne : ds ≠ []) (hds : ∀ d ∈ ds, d < 10)
    (hhead : ds.head? ≠ some 0) (n : ℤ) : ∃ ip tail, layout ds n = digitUnits ip ++ tail ∧
      ip ≠ [] ∧ (∀ d ∈ ip, d < 10) ∧ (ip.head? ≠ some 0 ∨ ip.length = 1) ∧ NoDigit tail ∧
      (tail.head? = some 46 → (fractionDigits tail).1 ≠ []) := by
  have hlen : 0 < ds.length := List.length_pos_of_ne_nil hne
  have hpoint : ∀ fp rest, fp ≠ [] → (∀ d ∈ fp, d < 10) → NoDigit rest →
      (fractionDigits (46 :: (digitUnits fp ++ rest))).1 ≠ [] := by
    intro fp rest hfp hlt hrest
    simp only [fractionDigits, if_true, scanDigits_append hlt hrest]
    exact hfp
  have hdot : ∀ r, NoDigit (46 :: r) := fun _ => (by decide : digitVal 46 = none)
  have hmark : ∀ r, NoDigit (101 :: r) := fun _ => (by decide : digitVal 101 = none)
  have htake : ∀ m, 0 < m → (ds.take m).head? = ds.head? := fun m hm => by
    rw [List.head?_take, if_neg (Nat.ne_of_gt hm)]
  have hnil : ∀ m, 0 < m → ds.take m ≠ [] := fun m hm h => by
    have hh := htake m hm
    rw [h, List.head?_nil] at hh
    exact hne (List.head?_eq_none_iff.1 hh.symm)
  have hlt : ∀ m, ∀ d ∈ ds.take m, d < 10 := fun m d hd => hds d (List.mem_of_mem_take hd)
  have hzeros : ∀ j, List.replicate j (48 : UInt16) = digitUnits (List.replicate j 0) := fun j => by
    rw [digitUnits, List.map_replicate]
    rfl
  have hzero : ∀ j, ∀ d ∈ List.replicate j 0, d < 10 := fun j d hd => by
    rw [List.eq_of_mem_replicate hd]
    decide
  unfold layout
  by_cases h1 : ds.length ≤ n ∧ n ≤ 21
  · rw [if_pos h1]
    refine ⟨ds ++ List.replicate (n - ds.length).toNat 0, [], ?_, ?_, ?_, Or.inl ?_, trivial, ?_⟩
    · rw [hzeros, digitUnits, digitUnits, digitUnits, List.map_append, List.append_nil]
    · exact List.append_ne_nil_of_left_ne_nil hne _
    · intro d hd
      rcases List.mem_append.1 hd with hd | hd
      · exact hds d hd
      · exact hzero _ d hd
    · rw [List.head?_append_of_ne_nil _ hne]
      exact hhead
    · simp
  rw [if_neg h1]
  by_cases h2 : 0 < n ∧ n ≤ 21
  · have hpos : 0 < n.toNat := by omega
    rw [if_pos h2]
    refine ⟨ds.take n.toNat, _, rfl, hnil _ hpos, hlt _, Or.inl (htake _ hpos ▸ hhead), hdot _,
      fun _ => ?_⟩
    rw [← List.append_nil (digitUnits (ds.drop n.toNat))]
    refine hpoint _ _ (fun h => ?_) (fun d hd => hds d (List.mem_of_mem_drop hd)) trivial
    have := List.drop_eq_nil_iff.1 h
    omega
  rw [if_neg h2]
  by_cases h3 : -6 < n ∧ n ≤ 0
  · rw [if_pos h3]
    refine ⟨[0], _, rfl, by simp, by simp, Or.inr rfl, hdot _, fun _ => ?_⟩
    have happend : List.replicate (-n).toNat (48 : UInt16) ++ digitUnits ds =
        digitUnits (List.replicate (-n).toNat 0 ++ ds) ++ [] := by
      rw [hzeros, digitUnits, digitUnits, digitUnits, List.map_append, List.append_nil]
    rw [happend]
    refine hpoint _ _ (List.append_ne_nil_of_right_ne_nil _ hne) (fun d hd => ?_) trivial
    rcases List.mem_append.1 hd with hd | hd
    · exact hzero _ d hd
    · exact hds d hd
  rw [if_neg h3]
  simp only
  by_cases h4 : ds.length = 1
  · rw [if_pos h4]
    exact ⟨ds, _, rfl, hne, hds, Or.inl hhead, hmark _, fun h => by cases h⟩
  · rw [if_neg h4]
    refine ⟨ds.take 1, _, rfl, hnil 1 (by decide), hlt 1, Or.inl (htake 1 (by decide) ▸ hhead),
      hdot _, fun _ => hpoint _ _ (fun h => ?_) (fun d hd => hds d (List.mem_of_mem_drop hd))
        (hmark _)⟩
    have := List.drop_eq_nil_iff.1 h
    omega

theorem ofRat_of_round {v : ℚ} {x : Double} (h : round? v = some x.val) : ofRat v = .fin x := by
  unfold ofRat
  split
  · rename_i y hy
    rw [h] at hy
    exact congrArg JsNum.fin (Double.ext (Option.some.inj hy).symm)
  · rename_i hy
    rw [h] at hy
    cases hy

theorem shortest_head (x : ℚ) : (shortest x).1.head? ≠ some 0 := by
  unfold shortest
  simp only
  split
  · split
    · exact digitsOf_head _
    · exact digitsOf_head _
  · simp

/-- What is printed for a finite number. -/
theorem toString_fin (x : Double) : (x.val = 0 ∧ toString (.fin x) = [48]) ∨
    ∃ (neg : Bool) (ds : List ℕ) (n : ℤ),
      toString (.fin x) = (if neg then [45] else []) ++ layout ds n ∧
      ds ≠ [] ∧ (∀ d ∈ ds, d < 10) ∧ ds.head? ≠ some 0 ∧
      (if neg then (ofRat ((natOf ds : ℚ) * 10 ^ (n - ds.length))).neg
        else ofRat ((natOf ds : ℚ) * 10 ^ (n - ds.length))) = .fin x := by
  by_cases hzero : x.val = 0
  · refine Or.inl ⟨hzero, ?_⟩
    simp only [toString, hzero, if_true]
    decide
  have hrepr : ∀ (neg : Bool) (y : Double), 0 < y.val → (if neg then y.neg else y) = x →
      (if neg then (ofRat ((natOf (shortest y.val).1 : ℚ) *
          10 ^ ((shortest y.val).2 - (shortest y.val).1.length))).neg
        else ofRat ((natOf (shortest y.val).1 : ℚ) *
          10 ^ ((shortest y.val).2 - (shortest y.val).1.length))) = .fin x := by
    intro neg y hy hx
    rw [ofRat_of_round (shortest_spec hy y.rep).2.2, ← hx]
    cases neg <;> rfl
  refine Or.inr ?_
  by_cases hneg : x.val < 0
  · have hpos : 0 < x.neg.val := neg_pos.2 hneg
    obtain ⟨hne, hds, -⟩ := shortest_spec hpos x.neg.rep
    refine ⟨true, _, _, ?_, hne, hds, shortest_head _,
      hrepr true x.neg hpos (Double.ext (neg_neg x.val))⟩
    simp only [toString, hzero, hneg, if_true, if_false]
    rfl
  · have hpos : 0 < x.val := lt_of_le_of_ne (not_lt.1 hneg) (Ne.symm hzero)
    obtain ⟨hne, hds, -⟩ := shortest_spec hpos x.rep
    refine ⟨false, _, _, ?_, hne, hds, shortest_head _, hrepr false x hpos rfl⟩
    simp only [toString, hzero, hneg, if_false]
    rfl

theorem toString_printed (x : Double) :
    toString (.fin x) ≠ [] ∧ ∀ u ∈ toString (.fin x), Printed u := by
  obtain ⟨-, htext⟩ | ⟨neg, ds, n, htext, hne, hds, -, -⟩ := toString_fin x
  · rw [htext]
    exact ⟨by simp, fun u hu => Or.inl ⟨0, by decide, List.mem_singleton.1 hu⟩⟩
  · rw [htext]
    obtain ⟨d, -, r, hcons⟩ := layout_cons hne hds n
    refine ⟨by rw [hcons]; simp, fun u hu => ?_⟩
    rcases List.mem_append.1 hu with hu | hu
    · cases neg
      · cases hu
      · exact Or.inr (List.mem_singleton.1 hu ▸ by decide)
    · exact printed_layout hds n u hu

/-- **A printed number is a number of JSON.** -/
theorem jsonNumber_toString (x : Double) : jsonNumber (toString (.fin x)) = some (.fin x) := by
  obtain ⟨hzero, htext⟩ | ⟨neg, ds, n, htext, hne, hds, hhead, hvalue⟩ := toString_fin x
  · have hread : jsonNumber [48] = some (.fin ⟨0, by decide +kernel⟩) := by decide +kernel
    rw [htext, hread]
    exact congrArg (fun y => some (JsNum.fin y)) (Double.ext hzero.symm)
  · obtain ⟨ip, tail, hsplit, hip, hlt, hlead, hnd, hpoint⟩ := layout_split hne hds hhead n
    have hread := unsignedDecimal_layout hne hds n
    rw [hsplit] at hread
    rw [htext, hsplit, jsonNumber_of_split hip hlt hlead hnd hpoint hread, hvalue]

/-! ## Values -/

mutual

/-- What `JSON.parse(JSON.stringify(v))` is. -/
def asJson : JsValue → JsValue
  | .undefined => .null
  | .null => .null
  | .bool b => .bool b
  | .num x => if x.isFinite then .num x else .null
  | .str s => .str s
  | .arr vs => .arr (elementsJson vs)
  | .obj ps => .obj (ofMembers (membersJson ps))

def elementsJson : List JsValue → List JsValue
  | [] => []
  | v :: vs => asJson v :: elementsJson vs

def membersJson : List (JsString × JsValue) → List (JsString × JsValue)
  | [] => []
  | (k, v) :: ps => if isUndefined v then membersJson ps else (k, asJson v) :: membersJson ps

end

/-- A text that does not go on with a number. -/
def NoNumber (s : JsString) : Prop := ∀ u ∈ s.head?, isNumberUnit u = false

theorem next_cons {u : UInt16} (h : isJsonSpace u = false) (r : JsString) :
    next (u :: r) = some (u, r) := by
  unfold next skipSpace
  rw [List.dropWhile_cons_of_neg (by rw [h]; decide)]

theorem printed_unit {u : UInt16} (h : Printed u) : isJsonSpace u = false ∧ isNumberUnit u = true ∧
    u ∉ js "\x7b[\"tfn]" := by
  rcases h with ⟨d, hd, rfl⟩ | h
  · revert d
    decide
  · revert u
    decide

theorem takeWhile_number {s r : JsString} (hs : ∀ u ∈ s, Printed u) (hr : NoNumber r) :
    (s ++ r).takeWhile isNumberUnit = s ∧ (s ++ r).dropWhile isNumberUnit = r := by
  have hall : ∀ u ∈ s, isNumberUnit u = true := fun u hu => (printed_unit (hs u hu)).2.1
  rw [List.takeWhile_append_of_pos hall, List.dropWhile_append_of_pos hall]
  cases r with
  | nil => exact ⟨List.append_nil s, rfl⟩
  | cons u r =>
    have hu : ¬ isNumberUnit u = true := by
      rw [hr u rfl]
      decide
    rw [List.takeWhile_cons_of_neg hu, List.dropWhile_cons_of_neg hu, List.append_nil]
    exact ⟨rfl, rfl⟩

/-- A printed value starts with no space and closes no bracket. -/
theorem stringify_cons (gap n : ℕ) (v : JsValue) :
    ∃ u r, stringify gap n v = u :: r ∧ isJsonSpace u = false ∧ u ≠ 93 := by
  have hnull : ∃ u r, js "null" = u :: r ∧ isJsonSpace u = false ∧ u ≠ 93 :=
    ⟨_, _, rfl, by decide, by decide⟩
  cases v with
  | num x =>
    rw [stringify]
    split
    · cases x with
      | fin x =>
        obtain ⟨hne, hprinted⟩ := toString_printed x
        obtain ⟨u, r, hcons⟩ := List.exists_cons_of_ne_nil hne
        obtain ⟨hspace, -, hunit⟩ := printed_unit (hprinted u (hcons ▸ List.mem_cons_self))
        refine ⟨u, r, hcons, hspace, ?_⟩
        rintro rfl
        exact hunit (by decide)
      | nan =>
        rename_i h
        cases h
      | infinity =>
        rename_i h
        cases h
    · exact hnull
  | bool b =>
    rw [stringify]
    cases b
    · exact ⟨_, _, rfl, by decide, by decide⟩
    · exact ⟨_, _, rfl, by decide, by decide⟩
  | undefined =>
    rw [stringify]
    exact hnull
  | null =>
    rw [stringify]
    exact hnull
  | str s => exact ⟨34, _, by rw [stringify, quote], by decide, by decide⟩
  | arr vs =>
    rw [stringify]
    split
    · exact ⟨91, _, rfl, by decide, by decide⟩
    · exact ⟨91, _, rfl, by decide, by decide⟩
  | obj ps =>
    rw [stringify]
    split
    · exact ⟨123, _, rfl, by decide, by decide⟩
    · exact ⟨123, _, rfl, by decide, by decide⟩

/-! Spaces in front of a value, a member or a bracket are skipped. -/

section
variable {w : JsString}

theorem next_spaces (hw : ∀ u ∈ w, isJsonSpace u = true) (s : JsString) : next (w ++ s) = next s := by
  unfold next skipSpace
  rw [List.dropWhile_append_of_pos hw]

theorem value_spaces (hw : ∀ u ∈ w, isJsonSpace u = true) (f : ℕ) (s : JsString) :
    value f (w ++ s) = value f s := by
  cases f with
  | zero => rfl
  | succ f => rw [value, value, next_spaces hw]

theorem elements_spaces (hw : ∀ u ∈ w, isJsonSpace u = true) (f : ℕ) (s : JsString) :
    elements f (w ++ s) = elements f s := by
  cases f with
  | zero => rfl
  | succ f => rw [elements, elements, value_spaces hw]

theorem members_spaces (hw : ∀ u ∈ w, isJsonSpace u = true) (f : ℕ) (s : JsString) :
    members f (w ++ s) = members f s := by
  cases f with
  | zero => rfl
  | succ f => rw [members, members, memberName, memberName, next_spaces hw]

variable {α : Type} {close : UInt16} {more : JsString → Option (List α × JsString)}

theorem bracketed_spaces (hw : ∀ u ∈ w, isJsonSpace u = true) (wrap : List α → JsValue)
    (s : JsString) : bracketed close more wrap (w ++ s) = bracketed close more wrap s := by
  rw [bracketed, bracketed, next_spaces hw]

theorem followed_spaces (hw : ∀ u ∈ w, isJsonSpace u = true) (x : α) (s : JsString) :
    followed close more x (w ++ s) = followed close more x s := by
  rw [followed, followed, next_spaces hw]

end

theorem lineBreak_spaces (gap n : ℕ) : ∀ u ∈ lineBreak gap n, isJsonSpace u = true := by
  intro u hu
  unfold lineBreak at hu
  split at hu
  · cases hu
  · rcases List.mem_cons.1 hu with rfl | hu
    · rfl
    · rw [List.eq_of_mem_replicate hu]
      rfl

theorem colon_spaces (gap : ℕ) :
    ∀ u ∈ (if gap = 0 then [] else [32] : JsString), isJsonSpace u = true := by
  intro u hu
  split at hu
  · cases hu
  · rw [List.mem_singleton.1 hu]
    rfl

theorem memberName_quote (k t : JsString) : memberName (quote k ++ 58 :: t) = some (k, t) := by
  unfold memberName quote
  rw [List.cons_append, next_cons (by decide)]
  simp only [Option.bind_some, if_true, List.append_assoc, List.singleton_append]
  rw [stringBody_quotedBody]
  simp only [Option.bind_some]
  rw [next_cons (by decide)]
  rfl

theorem membersStringify_cons {gap n : ℕ} (ps : List (JsString × JsValue))
    (h : membersStringify gap n ps ≠ []) : ∃ t, membersStringify gap n ps = 34 :: t := by
  induction ps with
  | nil => exact absurd rfl h
  | cons p ps ih =>
    obtain ⟨k, v⟩ := p
    rw [membersStringify] at h ⊢
    split
    · rename_i hundef
      rw [if_pos hundef] at h
      exact ih h
    · exact ⟨_, rfl⟩

theorem membersStringify_eq_nil_iff {gap n : ℕ} (ps : List (JsString × JsValue)) :
    membersStringify gap n ps = [] ↔ membersJson ps = [] := by
  induction ps with
  | nil => simp [membersStringify, membersJson]
  | cons p ps ih =>
    obtain ⟨k, v⟩ := p
    rw [membersStringify, membersJson]
    split
    · exact ih
    · simp [quote]

theorem value_word {f : ℕ} {w r : JsString} {v : JsValue} {u : UInt16}
    (hw : w.head? = some u) (hdispatch : u = 116 ∧ w = js "true" ∧ v = .bool true ∨
      u = 102 ∧ w = js "false" ∧ v = .bool false ∨ u = 110 ∧ w = js "null" ∧ v = .null) :
    value (f + 1) (w ++ r) = some (v, r) := by
  obtain ⟨rfl, rfl, rfl⟩ | ⟨rfl, rfl, rfl⟩ | ⟨rfl, rfl, rfl⟩ := hdispatch
  all_goals rfl

theorem value_number {f : ℕ} {x : Double} {r : JsString} (hr : NoNumber r) :
    value (f + 1) (toString (.fin x) ++ r) = some (.num (.fin x), r) := by
  obtain ⟨hne, hprinted⟩ := toString_printed x
  obtain ⟨htake, hdrop⟩ := takeWhile_number hprinted hr
  have hnumber : number (toString (.fin x) ++ r) = some (.num (.fin x), r) := by
    rw [number, htake, hdrop, jsonNumber_toString]
    rfl
  obtain ⟨u, t, hcons⟩ := List.exists_cons_of_ne_nil hne
  obtain ⟨hspace, -, hunit⟩ := printed_unit (hprinted u (hcons ▸ List.mem_cons_self))
  have hunits : js "\x7b[\"tfn]" = [123, 91, 34, 116, 102, 110, 93] := by decide
  rw [hunits] at hunit
  simp only [List.mem_cons, List.not_mem_nil, not_or, or_false] at hunit
  obtain ⟨h123, h91, h34, h116, h102, h110, -⟩ := hunit
  rw [hcons, List.cons_append] at hnumber ⊢
  refine value_eq_some.2 ⟨u, t ++ r, next_cons hspace _, .number ?_ hnumber⟩
  simp [h123, h91, h34, h116, h102, h110]

theorem value_string (f : ℕ) (r : JsString) :
    value (f + 1) (34 :: r) = (stringBody r).map fun p => (.str p.1, p.2) := by
  rw [value, next_cons (by decide)]
  rfl

theorem value_array (f : ℕ) (r : JsString) :
    value (f + 1) (91 :: r) = bracketed 93 (elements f) .arr r := by
  rw [value, next_cons (by decide)]
  rfl

theorem value_object (f : ℕ) (r : JsString) :
    value (f + 1) (123 :: r) = bracketed 125 (members f) (fun ms => .obj (ofMembers ms)) r := by
  rw [value, next_cons (by decide)]
  rfl

section
variable {α : Type} {close u : UInt16} {more : JsString → Option (List α × JsString)}

theorem followed_close {x : α} {r : JsString} (hspace : isJsonSpace close = false) :
    followed close more x (close :: r) = some ([x], r) := by
  unfold followed
  rw [next_cons hspace]
  exact if_pos rfl

theorem followed_comma {x : α} {xs : List α} {s r : JsString} (hclose : close ≠ 44)
    (h : more s = some (xs, r)) : followed close more x (44 :: s) = some (x :: xs, r) := by
  unfold followed
  rw [next_cons (by decide)]
  simp only [Option.bind_some, if_neg (Ne.symm hclose), if_true, h, Option.map_some]

theorem bracketed_close {wrap : List α → JsValue} {r : JsString}
    (hspace : isJsonSpace close = false) :
    bracketed close more wrap (close :: r) = some (wrap [], r) := by
  unfold bracketed
  rw [next_cons hspace]
  exact if_pos rfl

theorem bracketed_more {wrap : List α → JsValue} {s r : JsString} {xs : List α}
    (hspace : isJsonSpace u = false) (hclose : u ≠ close) (h : more (u :: s) = some (xs, r)) :
    bracketed close more wrap (u :: s) = some (wrap xs, r) := by
  unfold bracketed
  rw [next_cons hspace]
  simp only [Option.bind_some, if_neg hclose, h, Option.map_some]

end

theorem noNumber_of_mem {u : UInt16} (h : u ∈ [44, 93, 125]) (r : JsString) : NoNumber (u :: r) := by
  rintro _ ⟨⟩
  exact (by decide : ∀ u ∈ [(44 : UInt16), 93, 125], isNumberUnit u = false) u h

theorem noNumber_lineBreak {u : UInt16} (h : u ∈ [44, 93, 125]) (gap n : ℕ) (r : JsString) :
    NoNumber (lineBreak gap n ++ u :: r) := by
  unfold lineBreak
  split
  · exact noNumber_of_mem h r
  · rintro _ ⟨⟩
    rfl

mutual

/-- A printed value is read back, with any text behind it that does not make a number longer. -/
theorem value_stringify : ∀ (gap n : ℕ) (v : JsValue) (f : ℕ) (r : JsString),
    2 * (stringify gap n v).length + 1 ≤ f → NoNumber r →
    value f (stringify gap n v ++ r) = some (asJson v, r)
  | _, _, _, 0, _, hf, _ => by omega
  | _, _, .undefined, f + 1, r, _, _ => by
    rw [stringify, asJson]
    exact value_word rfl (Or.inr (Or.inr ⟨rfl, rfl, rfl⟩))
  | _, _, .null, f + 1, r, _, _ => by
    rw [stringify, asJson]
    exact value_word rfl (Or.inr (Or.inr ⟨rfl, rfl, rfl⟩))
  | _, _, .bool true, f + 1, r, _, _ => by
    rw [stringify, asJson]
    exact value_word rfl (Or.inl ⟨rfl, rfl, rfl⟩)
  | _, _, .bool false, f + 1, r, _, _ => by
    rw [stringify, asJson]
    exact value_word rfl (Or.inr (Or.inl ⟨rfl, rfl, rfl⟩))
  | _, _, .num (.fin x), f + 1, r, _, hr => by
    rw [stringify, asJson]
    exact value_number hr
  | _, _, .num .nan, f + 1, r, _, _ => by
    rw [stringify, asJson]
    exact value_word rfl (Or.inr (Or.inr ⟨rfl, rfl, rfl⟩))
  | _, _, .num (.infinity _), f + 1, r, _, _ => by
    rw [stringify, asJson]
    exact value_word rfl (Or.inr (Or.inr ⟨rfl, rfl, rfl⟩))
  | _, _, .str s, f + 1, r, _, _ => by
    rw [stringify, asJson, quote, List.cons_append, List.append_assoc, List.singleton_append,
      value_string, stringBody_quotedBody]
    rfl
  | _, _, .arr [], f + 1, r, _, _ => by
    rw [stringify, asJson, elementsJson, List.isEmpty_nil, if_pos rfl, List.cons_append,
      List.singleton_append, value_array]
    exact bracketed_close (by decide)
  | gap, n, .arr (v :: vs), f + 1, r, hf, _ => by
    rw [stringify, List.isEmpty_cons, if_neg (by decide)] at hf ⊢
    simp only [List.length_cons, List.length_append] at hf
    obtain ⟨u, t, hcons, hspace, hclose⟩ := stringify_cons gap (n + gap) v
    have hread := elements_elementsStringify gap (n + gap) n v vs f r (by omega)
    simp only [List.cons_append, List.append_assoc, List.nil_append]
    rw [asJson, value_array, bracketed_spaces (lineBreak_spaces gap _)]
    rw [elementsStringify, hcons, List.cons_append, List.cons_append] at hread ⊢
    exact bracketed_more hspace hclose hread
  | gap, n, .obj ps, f + 1, r, hf, _ => by
    rw [stringify] at hf ⊢
    rw [asJson]
    by_cases hnil : membersStringify gap (n + gap) ps = []
    · rw [hnil, (membersStringify_eq_nil_iff ps).1 hnil, List.isEmpty_nil, if_pos rfl,
        List.cons_append, List.singleton_append, value_object]
      exact bracketed_close (by decide)
    · have hfalse : (membersStringify gap (n + gap) ps).isEmpty = false := by
        rw [List.isEmpty_eq_false_iff]
        exact hnil
      rw [hfalse, if_neg (by decide)] at hf ⊢
      simp only [List.length_cons, List.length_append] at hf
      obtain ⟨t, hcons⟩ := membersStringify_cons ps hnil
      have hread := members_membersStringify gap (n + gap) n ps f r hnil (by omega)
      simp only [List.cons_append, List.append_assoc, List.nil_append]
      rw [value_object, bracketed_spaces (lineBreak_spaces gap _)]
      rw [hcons, List.cons_append] at hread ⊢
      rw [bracketed_more (by decide) (by decide) hread]
  termination_by _ _ v => sizeOf v

theorem elements_elementsStringify : ∀ (gap n m : ℕ) (v : JsValue) (vs : List JsValue) (f : ℕ)
    (r : JsString), 2 * (elementsStringify gap n (v :: vs)).length + 2 ≤ f →
    elements f (elementsStringify gap n (v :: vs) ++ (lineBreak gap m ++ 93 :: r)) =
      some (elementsJson (v :: vs), r)
  | _, _, _, _, _, 0, _, hf => by omega
  | gap, n, m, v, [], f + 1, r, hf => by
    simp only [elementsStringify, List.isEmpty_nil, if_true, List.append_nil] at hf ⊢
    rw [elements, value_stringify gap n v f _ (by omega) (noNumber_lineBreak (by decide) gap m r),
      Option.bind_some, elementsJson, elementsJson, followed_spaces (lineBreak_spaces gap m)]
    exact followed_close (by decide)
  | gap, n, m, v, w :: ws, f + 1, r, hf => by
    rw [elementsStringify, List.isEmpty_cons, if_neg (by decide)] at hf ⊢
    simp only [List.length_append, List.length_cons] at hf
    have hread := elements_elementsStringify gap n m w ws f r (by omega)
    rw [← elements_spaces (lineBreak_spaces gap n)] at hread
    simp only [List.cons_append, List.append_assoc]
    rw [elements, value_stringify gap n v f _ (by omega) (noNumber_of_mem (by decide) _),
      Option.bind_some, elementsJson]
    exact followed_comma (by decide) hread
  termination_by _ _ _ v vs => sizeOf (v :: vs)

theorem members_membersStringify : ∀ (gap n m : ℕ) (ps : List (JsString × JsValue)) (f : ℕ)
    (r : JsString), membersStringify gap n ps ≠ [] →
    2 * (membersStringify gap n ps).length + 2 ≤ f →
    members f (membersStringify gap n ps ++ (lineBreak gap m ++ 125 :: r)) =
      some (membersJson ps, r)
  | _, _, _, _, 0, _, _, hf => by omega
  | _, _, _, [], _, _, hne, _ => absurd rfl hne
  | gap, n, m, (k, v) :: ps, f + 1, r, hne, hf => by
    rw [membersStringify, membersJson] at *
    split
    · rename_i hundef
      rw [if_pos hundef] at hne hf
      exact members_membersStringify gap n m ps (f + 1) r hne hf
    · rename_i hundef
      rw [if_neg hundef] at hf
      simp only [List.length_append, List.length_cons] at hf
      simp only [List.cons_append, List.append_assoc]
      rw [members, memberName_quote, Option.bind_some, value_spaces (colon_spaces gap)]
      by_cases hnil : membersStringify gap n ps = []
      · rw [hnil, (membersStringify_eq_nil_iff ps).1 hnil, List.isEmpty_nil, if_pos rfl,
          List.nil_append,
          value_stringify gap n v f _ (by omega) (noNumber_lineBreak (by decide) gap m r),
          Option.bind_some, followed_spaces (lineBreak_spaces gap m)]
        exact followed_close (by decide)
      · have hfalse : (membersStringify gap n ps).isEmpty = false := by
          rw [List.isEmpty_eq_false_iff]
          exact hnil
        simp only [hfalse, Bool.false_eq_true, if_false, List.length_append, List.length_cons] at hf ⊢
        have hread := members_membersStringify gap n m ps f r hnil (by omega)
        rw [← members_spaces (lineBreak_spaces gap n)] at hread
        rw [List.cons_append, List.append_assoc,
          value_stringify gap n v f _ (by omega) (noNumber_of_mem (by decide) _), Option.bind_some]
        exact followed_comma (by decide) hread
  termination_by _ _ _ ps => sizeOf ps

end

mutual

/-- Without a gap it is `JSON.stringify(v)`. -/
theorem stringify_zero : ∀ (n : ℕ) (v : JsValue), stringify 0 n v = jsonText v
  | _, .undefined => by rw [stringify, jsonText]
  | _, .null => by rw [stringify, jsonText]
  | _, .bool _ => by rw [stringify, jsonText]
  | _, .num _ => by rw [stringify, jsonText]
  | _, .str _ => by rw [stringify, jsonText]
  | _, .arr [] => by
    rw [stringify, jsonText, elementsText]
    rfl
  | n, .arr (v :: vs) => by
    rw [stringify, jsonText, elementsStringify_zero, List.isEmpty_cons]
    rfl
  | n, .obj ps => by
    rw [stringify, jsonText, membersStringify_zero]
    cases membersText ps <;> rfl

theorem elementsStringify_zero : ∀ (n : ℕ) (vs : List JsValue),
    elementsStringify 0 n vs = elementsText vs
  | _, [] => by rw [elementsStringify, elementsText]
  | n, v :: vs => by
    rw [elementsStringify, elementsText, stringify_zero, elementsStringify_zero]
    rfl

theorem membersStringify_zero : ∀ (n : ℕ) (ps : List (JsString × JsValue)),
    membersStringify 0 n ps = membersText ps
  | _, [] => by rw [membersStringify, membersText]
  | n, (k, v) :: ps => by
    rw [membersStringify, membersText, stringify_zero, membersStringify_zero]
    rfl

end

/-- **The round trip**, with any gap. -/
theorem parse_stringify (gap n : ℕ) (v : JsValue) : parse (stringify gap n v) = some (asJson v) := by
  have hread := value_stringify gap n v (2 * (stringify gap n v).length + 1) [] (le_refl _)
    (by rintro _ ⟨⟩)
  rw [List.append_nil] at hread
  unfold parse
  rw [hread]
  rfl

theorem parse_jsonText (v : JsValue) : parse (jsonText v) = some (asJson v) := by
  rw [← stringify_zero 0 v, parse_stringify]

/-! ## Reading the properties of what comes back -/

/-- A property as it comes back: one that is `undefined` is not there any more. -/
def propJson (v : JsValue) : JsValue := if isUndefined v then .undefined else asJson v

theorem keys_membersJson (ps : List (JsString × JsValue)) :
    (keys (membersJson ps)).Sublist (keys ps) := by
  induction ps with
  | nil => exact List.Sublist.refl _
  | cons p ps ih =>
    obtain ⟨k, v⟩ := p
    rw [membersJson, keys_cons]
    split
    · exact ih.cons k
    · exact ih.cons_cons k

theorem lookup_membersJson (ps : List (JsString × JsValue)) (hnd : (keys ps).Nodup)
    (k : JsString) : lookup (membersJson ps) k = propJson (lookup ps k) := by
  induction ps with
  | nil => rfl
  | cons p ps ih =>
    obtain ⟨k', v⟩ := p
    rw [keys_cons, List.nodup_cons] at hnd
    rw [membersJson, lookup_cons]
    by_cases hk : k' = k
    · subst hk
      rw [if_pos rfl, propJson]
      split
      · exact lookup_of_notMem fun hmem => hnd.1 ((keys_membersJson ps).subset hmem)
      · rw [lookup_cons, if_pos rfl]
    · rw [if_neg hk]
      split
      · exact ih hnd.2
      · rw [lookup_cons, if_neg hk, ih hnd.2]

/-- An object with different names comes back with the same properties. -/
theorem get_asJson {ps : List (JsString × JsValue)} (hnd : (keys ps).Nodup) (k : JsString) :
    (asJson (.obj ps)).get k = propJson (lookup ps k) := by
  have hnd' : (keys (membersJson ps)).Nodup := hnd.sublist (keys_membersJson ps)
  rw [asJson, JsValue.get_obj, ofMembers_eq_self hnd', lookup_membersJson ps hnd]

/-! ## What came back once comes back the same -/

theorem isUndefined_asJson (v : JsValue) : isUndefined (asJson v) = false := by
  cases v with
  | num x =>
    rw [asJson]
    split <;> rfl
  | _ =>
    rw [asJson]
    rfl

/-- An object whose properties are all as they would come back. -/
theorem asJson_obj_of_fixed {ps : List (JsString × JsValue)} (hnd : (keys ps).Nodup)
    (h : ∀ p ∈ ps, asJson p.2 = p.2) : asJson (.obj ps) = .obj ps := by
  have hmembers : membersJson ps = ps := by
    clear hnd
    induction ps with
    | nil => rfl
    | cons p ps ih =>
      obtain ⟨k, v⟩ := p
      have hv : asJson v = v := h (k, v) List.mem_cons_self
      have hdefined : isUndefined v = false := hv ▸ isUndefined_asJson v
      rw [membersJson, hdefined, if_neg (by decide), hv,
        ih fun q hq => h q (List.mem_cons_of_mem _ hq)]
  rw [asJson, hmembers, ofMembers_eq_self hnd]

mutual

theorem asJson_asJson : ∀ v : JsValue, asJson (asJson v) = asJson v
  | .undefined => by rw [asJson, asJson]
  | .null => by rw [asJson, asJson]
  | .bool _ => by rw [asJson, asJson]
  | .str _ => by rw [asJson, asJson]
  | .num x => by
    rw [asJson]
    split
    · rename_i h
      rw [asJson, if_pos h]
    · rw [asJson]
  | .arr vs => by rw [asJson, asJson, elementsJson_elementsJson vs]
  | .obj ps => by
    rw [asJson]
    refine asJson_obj_of_fixed (nodup_ofMembers _) fun p hp => ?_
    obtain ⟨m, hm, heq⟩ := mem_ofMembers p hp
    rw [heq, membersJson_fixed ps m hm]

theorem elementsJson_elementsJson : ∀ vs : List JsValue,
    elementsJson (elementsJson vs) = elementsJson vs
  | [] => rfl
  | v :: vs => by
    rw [elementsJson, elementsJson, asJson_asJson v, elementsJson_elementsJson vs]

theorem membersJson_fixed : ∀ (ps : List (JsString × JsValue)),
    ∀ p ∈ membersJson ps, asJson p.2 = p.2
  | [], p, hp => by cases hp
  | (k, v) :: ps, p, hp => by
    rw [membersJson] at hp
    split at hp
    · exact membersJson_fixed ps p hp
    · rcases List.mem_cons.1 hp with rfl | hp
      · exact asJson_asJson v
      · exact membersJson_fixed ps p hp

end

theorem elementsJson_append (vs ws : List JsValue) :
    elementsJson (vs ++ ws) = elementsJson vs ++ elementsJson ws := by
  induction vs with
  | nil => rfl
  | cons v vs ih => rw [List.cons_append, elementsJson, elementsJson, ih, List.cons_append]

theorem elementsJson_eq_map (vs : List JsValue) : elementsJson vs = vs.map asJson := by
  induction vs with
  | nil => rfl
  | cons v vs ih => rw [elementsJson, ih, List.map_cons]

/-! ## A printed text has no lone surrogates -/

theorem wellFormed_ascii {s : JsString} (h : ∀ u ∈ s, u.toNat < 0x80) : WellFormed s := by
  refine wellFormed_of_forall fun u hu => ?_
  have := h u hu
  simp only [isHigh, isLow, decide_eq_false_iff_not]
  omega

theorem wellFormed_quotedUnit (u : UInt16) : WellFormed (quotedUnit u) := by
  unfold quotedUnit
  split_ifs with h1 h2 h3 h4 h5 h6 h7 h8
  · exact wellFormed_ascii (by decide)
  · exact wellFormed_ascii (by decide)
  · exact wellFormed_ascii (by decide)
  · exact wellFormed_ascii (by decide)
  · exact wellFormed_ascii (by decide)
  · exact wellFormed_ascii (by decide)
  · exact wellFormed_ascii (by decide)
  · have hhex : ∀ b, ∀ w ∈ hexPair b, w.toNat < 0x80 := by
      intro b w hw
      have hmem : w ∈ hexText [b] := by
        rw [hexText, List.flatMap_singleton]
        exact hw
      exact (by decide : ∀ w ∈ js "0123456789abcdef", w.toNat < 0x80) w (mem_hexText hmem)
    refine wellFormed_ascii fun w hw => ?_
    rw [unicodeEscape, List.mem_cons, List.mem_cons, List.mem_append] at hw
    rcases hw with rfl | rfl | hw | hw
    · decide
    · decide
    · exact hhex _ w hw
    · exact hhex _ w hw
  · simp only [Bool.or_eq_true, not_or, Bool.not_eq_true] at h8
    exact .unit h8.1.2 h8.2 .nil

theorem wellFormed_quotedBody (s : JsString) : WellFormed (quotedBody s) := by
  fun_induction quotedBody s with
  | case1 => exact .nil
  | case2 u => exact wellFormed_quotedUnit u
  | case3 u v t hpair ih =>
    rw [Bool.and_eq_true] at hpair
    exact .pair hpair.1 hpair.2 ih
  | case4 u v t _ ih => exact (wellFormed_quotedUnit u).append ih

theorem wellFormed_quote (s : JsString) : WellFormed (quote s) :=
  .unit (by decide) (by decide)
    ((wellFormed_quotedBody s).append (wellFormed_ascii (by decide)))

theorem wellFormed_toString (x : Double) : WellFormed (toString (.fin x)) := by
  have hdigit : ∀ d < 10, (UInt16.ofNat (48 + d)).toNat < 0x80 := by decide
  have hmark : ∀ u ∈ js ".e+-", u.toNat < 0x80 := by decide
  refine wellFormed_ascii fun u hu => ?_
  rcases (toString_printed x).2 u hu with ⟨d, hd, rfl⟩ | h
  · exact hdigit d hd
  · exact hmark u h

theorem wellFormed_spaces {w : JsString} (hw : ∀ u ∈ w, isJsonSpace u = true) : WellFormed w := by
  refine wellFormed_ascii fun u hu => ?_
  have hspace := hw u hu
  simp only [isJsonSpace, Bool.or_eq_true, beq_iff_eq] at hspace
  rcases hspace with ((rfl | rfl) | rfl) | rfl
  all_goals decide

mutual

theorem wellFormed_stringify : ∀ (gap n : ℕ) (v : JsValue), WellFormed (stringify gap n v)
  | _, _, .undefined => by
    rw [stringify]
    exact wellFormed_ascii (by decide)
  | _, _, .null => by
    rw [stringify]
    exact wellFormed_ascii (by decide)
  | _, _, .bool true => by
    rw [stringify]
    exact wellFormed_ascii (by decide)
  | _, _, .bool false => by
    rw [stringify]
    exact wellFormed_ascii (by decide)
  | _, _, .num (.fin x) => by
    rw [stringify]
    exact wellFormed_toString x
  | _, _, .num .nan => by
    rw [stringify]
    exact wellFormed_ascii (by decide)
  | gap, n, .num (.infinity neg) => by
    have hnull : stringify gap n (.num (.infinity neg)) = js "null" := by
      rw [stringify]
      rfl
    rw [hnull]
    exact wellFormed_ascii (by decide)
  | _, _, .str s => by
    rw [stringify]
    exact wellFormed_quote s
  | gap, n, .arr vs => by
    rw [stringify]
    split
    · exact wellFormed_ascii (by decide)
    · exact .unit (by decide) (by decide) ((wellFormed_spaces (lineBreak_spaces gap _)).append
        ((wellFormed_elementsStringify gap _ vs).append
          ((wellFormed_spaces (lineBreak_spaces gap n)).append (wellFormed_ascii (by decide)))))
  | gap, n, .obj ps => by
    rw [stringify]
    split
    · exact wellFormed_ascii (by decide)
    · exact .unit (by decide) (by decide) ((wellFormed_spaces (lineBreak_spaces gap _)).append
        ((wellFormed_membersStringify gap _ ps).append
          ((wellFormed_spaces (lineBreak_spaces gap n)).append (wellFormed_ascii (by decide)))))

theorem wellFormed_elementsStringify : ∀ (gap n : ℕ) (vs : List JsValue),
    WellFormed (elementsStringify gap n vs)
  | _, _, [] => .nil
  | gap, n, v :: vs => by
    rw [elementsStringify]
    refine (wellFormed_stringify gap n v).append ?_
    split
    · exact .nil
    · exact .unit (by decide) (by decide) ((wellFormed_spaces (lineBreak_spaces gap n)).append
        (wellFormed_elementsStringify gap n vs))

theorem wellFormed_membersStringify : ∀ (gap n : ℕ) (ps : List (JsString × JsValue)),
    WellFormed (membersStringify gap n ps)
  | _, _, [] => .nil
  | gap, n, (k, v) :: ps => by
    rw [membersStringify]
    split
    · exact wellFormed_membersStringify gap n ps
    · refine (wellFormed_quote k).append (.unit (by decide) (by decide)
        ((wellFormed_spaces (colon_spaces gap)).append ((wellFormed_stringify gap n v).append ?_)))
      split
      · exact .nil
      · exact .unit (by decide) (by decide) ((wellFormed_spaces (lineBreak_spaces gap n)).append
          (wellFormed_membersStringify gap n ps))

end

theorem wellFormed_jsonText (v : JsValue) : WellFormed (jsonText v) :=
  stringify_zero 0 v ▸ wellFormed_stringify 0 0 v

end SealedSky.Js
