import SealedSky.Js.Codec
import SealedSky.Js.JsonRoundtrip
import SealedSky.TrustedOs.GoJson

/-!
# JSON strings between JavaScript and Go

What `JSON.stringify` writes between two quotes `encoding/json` reads as the same characters, a
surrogate on its own as U+FFFD. What `encoding/json` writes `JSON.parse` reads as the code units of the
same characters.

* `spells_quotedBody` — from JavaScript to Go.
* `stringBody_goString` — from Go to JavaScript.
-/
namespace SealedSky.Host

open Js Utf8 Sha256
open TrustedOs (goEscape goString hexChar unquote codePoint getu4)
open JsonText (Hex4 HexDigit Item)

theorem utf8_append {s : JsString} (h : WellFormed s) (t : JsString) :
    utf8 (s ++ t) = utf8 s ++ utf8 t := by
  rw [utf8, h.toWellFormed_append, encode_append]
  rfl

/-! ## What JavaScript writes, Go reads -/

theorem utf8_unicodeEscape (u : UInt16) :
    ∃ ds, utf8 (unicodeEscape u) = 92 :: 117 :: ds ∧ Hex4 ds u.toNat := by
  have hdigit : ∀ n < 16, HexDigit (UInt8.ofNat (hexDigit n).toNat) n ∧
      (UInt8.ofNat (hexDigit n).toNat).toNat < 0x80 ∧
      UInt16.ofNat (hexDigit n).toNat = UInt16.ofNat (UInt8.ofNat (hexDigit n).toNat).toNat := by
    decide
  have hu : u.toNat < 65536 := u.toNat_lt
  have hhi : (UInt8.ofNat (u.toNat / 256)).toNat = u.toNat / 256 := by
    rw [UInt8.toNat_ofNat']
    omega
  have hlo : (UInt8.ofNat (u.toNat % 256)).toNat = u.toNat % 256 := by
    rw [UInt8.toNat_ofNat']
    omega
  obtain ⟨ha, ha', ha''⟩ := hdigit (u.toNat / 256 / 16) (by omega)
  obtain ⟨hb, hb', hb''⟩ := hdigit (u.toNat / 256 % 16) (by omega)
  obtain ⟨hc, hc', hc''⟩ := hdigit (u.toNat % 256 / 16) (by omega)
  obtain ⟨hd, hd', hd''⟩ := hdigit (u.toNat % 256 % 16) (by omega)
  have hhex := Hex4.digits ha hb hc hd
  have hval : (((u.toNat / 256 / 16 * 16 + u.toNat / 256 % 16) * 16 + u.toNat % 256 / 16) * 16 +
      u.toNat % 256 % 16) = u.toNat := by omega
  rw [hval] at hhex
  have htext : unicodeEscape u = asciiText [92, 117,
      UInt8.ofNat (hexDigit (u.toNat / 256 / 16)).toNat,
      UInt8.ofNat (hexDigit (u.toNat / 256 % 16)).toNat,
      UInt8.ofNat (hexDigit (u.toNat % 256 / 16)).toNat,
      UInt8.ofNat (hexDigit (u.toNat % 256 % 16)).toNat] := by
    rw [unicodeEscape, hexPair, hexPair, hhi, hlo, ha'', hb'', hc'', hd'']
    rfl
  refine ⟨_, ?_, hhex⟩
  rw [htext, utf8_asciiText]
  simp only [List.mem_cons, List.not_mem_nil, or_false, forall_eq_or_imp, forall_eq]
  exact ⟨by decide, by decide, ha', hb', hc', hd'⟩

/-- What a unit that is no surrogate is written as stands for its character. -/
theorem item_quotedUnit {u : UInt16} (hh : isHigh u = false) (hl : isLow u = false) :
    Item (utf8 (quotedUnit u)) (single u) := by
  have hletter : ∀ {b : UInt8}, utf8 [92, UInt16.ofNat b.toNat] = [92, b] →
      (b, single u) ∈ JsonText.escapes → Item (utf8 [92, UInt16.ofNat b.toNat]) (single u) := by
    intro b hbytes hmem
    rw [hbytes]
    exact .escape hmem
  have hsingle : single u = Char.ofNat u.toNat := by
    rw [single, hh, hl]
    rfl
  have hvalid : u.toNat.isValidChar := by
    simp only [isHigh, isLow, decide_eq_false_iff_not] at hh hl
    have := u.toNat_lt
    unfold Nat.isValidChar
    omega
  unfold quotedUnit
  split
  · subst u
    exact hletter (b := 98) (by decide) (by decide)
  split
  · subst u
    exact hletter (b := 116) (by decide) (by decide)
  split
  · subst u
    exact hletter (b := 110) (by decide) (by decide)
  split
  · subst u
    exact hletter (b := 102) (by decide) (by decide)
  split
  · subst u
    exact hletter (b := 114) (by decide) (by decide)
  split
  · subst u
    exact hletter (b := 34) (by decide) (by decide)
  split
  · subst u
    exact hletter (b := 92) (by decide) (by decide)
  split
  · obtain ⟨ds, hbytes, hhex⟩ := utf8_unicodeEscape u
    rw [hbytes, hsingle]
    exact .unit hhex hvalid
  · rename_i hquote hback hctl
    simp only [Bool.or_eq_true, decide_eq_true_eq, not_or, not_lt] at hctl
    have hnat : (single u).toNat = u.toNat := hsingle ▸ toNat_ofNat hvalid
    have hbytes : utf8 [u] = String.utf8EncodeChar (single u) := by simp [utf8, toWellFormed, encode]
    rw [hbytes]
    refine .plain (hnat ▸ hctl.1.1) (fun h => hquote ?_) (fun h => hback ?_)
    · exact UInt16.toNat_inj.1 (hnat.symm.trans (congrArg Char.toNat h))
    · exact UInt16.toNat_inj.1 (hnat.symm.trans (congrArg Char.toNat h))

theorem quotedUnit_surrogate {u : UInt16} (h : (isHigh u || isLow u) = true) :
    quotedUnit u = unicodeEscape u := by
  have hne : ∀ v : UInt16, v.toNat < 0xD800 → u ≠ v := by
    rintro v hlt rfl
    simp only [Bool.or_eq_true, isHigh, isLow, decide_eq_true_eq] at h
    omega
  have hor : (decide (u.toNat < 32) || isHigh u || isLow u) = true := by
    rw [Bool.or_assoc, h, Bool.or_true]
  unfold quotedUnit
  rw [if_neg (hne _ (by decide)), if_neg (hne _ (by decide)), if_neg (hne _ (by decide)),
    if_neg (hne _ (by decide)), if_neg (hne _ (by decide)), if_neg (hne _ (by decide)),
    if_neg (hne _ (by decide)), if_pos hor]

theorem utf8_quotedUnit_ne_nil (u : UInt16) : utf8 (quotedUnit u) ≠ [] := by
  by_cases h : (isHigh u || isLow u) = true
  · obtain ⟨ds, hbytes, -⟩ := utf8_unicodeEscape u
    rw [quotedUnit_surrogate h, hbytes]
    exact List.cons_ne_nil _ _
  · rw [Bool.or_eq_true, not_or, Bool.not_eq_true, Bool.not_eq_true] at h
    exact (item_quotedUnit h.1 h.2).ne_nil

/-- The bytes do not go on with the escape of a low surrogate. -/
def NoLow (t : List UInt8) : Prop :=
  ∀ r w r', t = 92 :: 117 :: r → getu4 r = some (w, r') → ¬ (0xDC00 ≤ w ∧ w < 0xE000)

theorem noLow_of_head {b : UInt8} (h : b ≠ 92) (t : List UInt8) : NoLow (b :: t) := by
  rintro r w r' ⟨⟩
  exact absurd rfl h

theorem item_noLow {u : UInt16} (hl : isLow u = false) (t : List UInt8) :
    NoLow (utf8 (quotedUnit u) ++ t) := by
  have hescape : NoLow (utf8 (unicodeEscape u) ++ t) := by
    obtain ⟨ds, hbytes, hhex⟩ := utf8_unicodeEscape u
    rw [hbytes]
    rintro r w r' ⟨⟩ hget
    change getu4 (ds ++ t) = _ at hget
    rw [TrustedOs.getu4_hex4 hhex] at hget
    obtain ⟨rfl, -⟩ := Prod.mk.inj (Option.some.inj hget)
    simpa [isLow] using hl
  by_cases hh : isHigh u = true
  · have hquoted : quotedUnit u = unicodeEscape u := quotedUnit_surrogate (by rw [hh, Bool.true_or])
    rw [hquoted]
    exact hescape
  · -- a letter behind the backslash, or no backslash at all
    rw [Bool.not_eq_true] at hh
    have hitem := item_quotedUnit hh hl
    generalize single u = c at hitem
    generalize utf8 (quotedUnit u) = bs at hitem
    cases hitem with
    | plain hc hq he =>
      obtain ⟨a, as, hbytes, -, ha, -⟩ := TrustedOs.encodeChar_head hc hq he
      rw [hbytes]
      exact noLow_of_head ha _
    | escape hmem =>
      rintro r w r' heq hget
      have hall : ∀ p ∈ JsonText.escapes, p.1 ≠ 117 := by decide
      injection heq with _ heq
      injection heq with hb _
      exact absurd hb (hall _ hmem)
    | @unit ds _ hhex hv =>
      rintro r w r' ⟨⟩ hget
      change getu4 (ds ++ t) = _ at hget
      rw [TrustedOs.getu4_hex4 hhex] at hget
      obtain ⟨rfl, -⟩ := Prod.mk.inj (Option.some.inj hget)
      rcases hv with hv | hv
      · omega
      · omega
    | @pair ds es _ _ hhex _ hv _ =>
      rintro r w r' ⟨⟩ hget
      change getu4 (ds ++ 92 :: 117 :: es ++ t) = _ at hget
      rw [List.append_assoc, TrustedOs.getu4_hex4 hhex] at hget
      obtain ⟨rfl, -⟩ := Prod.mk.inj (Option.some.inj hget)
      omega

theorem codePoint_lone {v : ℕ} {t : List UInt8} (hv : 0xD800 ≤ v ∧ v < 0xE000)
    (h : v < 0xDC00 → NoLow t) : codePoint v t = ('\uFFFD', t) := by
  unfold codePoint
  rw [if_pos hv]
  split
  · rename_i r
    split
    · rename_i w r' hget
      refine if_neg fun hpair => ?_
      exact h hpair.1 r w r' rfl hget ⟨hpair.2.1, hpair.2.2⟩
    · rfl
  · rfl

/-- A unit on its own is read as its character, unless a low surrogate could complete it. -/
theorem unquote_quotedUnit {u : UInt16} {t : List UInt8} (h : isHigh u = true → NoLow t) (n : ℕ) :
    unquote (n + 1) (utf8 (quotedUnit u) ++ t) = TrustedOs.push (single u) (unquote n t) := by
  by_cases hsur : (isHigh u || isLow u) = true
  · have hv : 0xD800 ≤ u.toNat ∧ u.toNat < 0xE000 := by
      simp only [Bool.or_eq_true, isHigh, isLow, decide_eq_true_eq] at hsur
      omega
    obtain ⟨ds, hbytes, hhex⟩ := utf8_unicodeEscape u
    have hcp : codePoint u.toNat t = ('\uFFFD', t) := codePoint_lone hv fun hlt =>
      h (by simp only [isHigh, decide_eq_true_eq]; exact ⟨hv.1, hlt⟩)
    have hsingle : single u = '\uFFFD' := by rw [single, if_pos hsur]
    rw [quotedUnit_surrogate hsur, hbytes, hsingle]
    simp [unquote, TrustedOs.getu4_hex4 hhex, hcp]
  · rw [Bool.or_eq_true, not_or, Bool.not_eq_true, Bool.not_eq_true] at hsur
    exact TrustedOs.unquote_item (item_quotedUnit hsur.1 hsur.2) n t

theorem wellFormed_pair_quoted {u v : UInt16} (hu : isHigh u = true) (hv : isLow v = true)
    (t : JsString) : utf8 (u :: v :: t) = String.utf8EncodeChar (pair u v) ++ utf8 t := by
  rw [utf8, toWellFormed_cons_cons, hu, hv, Bool.and_self, if_pos rfl, encode_cons]
  rfl

theorem item_pair {u v : UInt16} (hu : isHigh u = true) (hv : isLow v = true) :
    Item (String.utf8EncodeChar (pair u v)) (pair u v) := by
  simp only [isHigh, isLow, decide_eq_true_eq] at hu hv
  have hvalid : ((u.toNat - 0xD800) * 0x400 + (v.toNat - 0xDC00) + 0x10000).isValidChar := by
    unfold Nat.isValidChar
    omega
  have hnat : (pair u v).toNat = (u.toNat - 0xD800) * 0x400 + (v.toNat - 0xDC00) + 0x10000 :=
    toNat_ofNat hvalid
  have hne : ∀ c : Char, c.toNat < 0x10000 → pair u v ≠ c := by
    rintro c hc rfl
    omega
  exact .plain (by omega) (hne _ (by decide)) (hne _ (by decide))

/-- Behind a high surrogate on its own comes no low one. -/
theorem quotedBody_noLow {v : UInt16} (hv : isLow v = false) (r : JsString) (t : List UInt8) :
    NoLow (utf8 (quotedBody (v :: r)) ++ t) := by
  cases r with
  | nil => exact item_noLow hv t
  | cons w r =>
    rw [quotedBody]
    split
    · rename_i hpair
      rw [Bool.and_eq_true] at hpair
      have hitem := item_pair hpair.1 hpair.2
      rw [wellFormed_pair_quoted hpair.1 hpair.2]
      simp only [isHigh, isLow, decide_eq_true_eq] at hpair
      have hvalid : ((v.toNat - 0xD800) * 0x400 + (w.toNat - 0xDC00) + 0x10000).isValidChar := by
        unfold Nat.isValidChar
        omega
      have hnat : (pair v w).toNat = (v.toNat - 0xD800) * 0x400 + (w.toNat - 0xDC00) + 0x10000 :=
        toNat_ofNat hvalid
      have hlarge : 0x80 ≤ (pair v w).toNat := by omega
      obtain ⟨a, as, hbytes, ha, -⟩ := encodeChar_nonascii hlarge
      rw [hbytes]
      refine noLow_of_head (fun h => ?_) _
      rw [h] at ha
      exact absurd ha (by decide)
    · rw [utf8_append (wellFormed_quotedUnit v), List.append_assoc]
      exact item_noLow hv _

/-- **What JavaScript writes between quotes, Go reads.** -/
theorem unquote_quotedBody (s : JsString) : ∀ (n : ℕ) (r : List UInt8), (toWellFormed s).length < n →
    unquote n (utf8 (quotedBody s) ++ 34 :: r) = some (toWellFormed s, r) := by
  have hpos : ∀ {n m : ℕ}, m < n → ∃ k, n = k + 1 := fun {n m} h => ⟨n - 1, by omega⟩
  have hend : ∀ (n : ℕ) (r : List UInt8), 0 < n → unquote n (34 :: r) = some ([], r) := by
    intro n r hn
    obtain ⟨k, rfl⟩ := hpos hn
    rfl
  fun_induction quotedBody s with
  | case1 => exact fun n r hn => hend n r hn
  | case2 u =>
    intro n r hn
    obtain ⟨k, rfl⟩ := hpos hn
    rw [unquote_quotedUnit (fun _ => noLow_of_head (by decide) r), hend k r (Nat.lt_of_succ_lt_succ hn)]
    rfl
  | case3 u v t hpair ih =>
    intro n r hn
    obtain ⟨k, rfl⟩ := hpos hn
    rw [Bool.and_eq_true] at hpair
    rw [toWellFormed_cons_cons, hpair.1, hpair.2, Bool.and_self, if_pos rfl, List.length_cons] at hn
    rw [wellFormed_pair_quoted hpair.1 hpair.2, List.append_assoc,
      TrustedOs.unquote_item (item_pair hpair.1 hpair.2), ih k r (by omega), toWellFormed_cons_cons,
      hpair.1, hpair.2]
    rfl
  | case4 u v t hpair ih =>
    intro n r hn
    obtain ⟨k, rfl⟩ := hpos hn
    rw [toWellFormed_cons_cons, if_neg hpair, List.length_cons] at hn
    have hlow : isHigh u = true → NoLow (utf8 (quotedBody (v :: t)) ++ 34 :: r) := by
      intro hu
      rw [hu, Bool.true_and, Bool.not_eq_true] at hpair
      exact quotedBody_noLow hpair t _
    rw [utf8_append (wellFormed_quotedUnit u), List.append_assoc, unquote_quotedUnit hlow,
      ih k r (by omega), toWellFormed_cons_cons, if_neg hpair]
    rfl

theorem length_le_quotedBody (s : JsString) :
    (toWellFormed s).length ≤ (utf8 (quotedBody s)).length := by
  have hunit : ∀ u, 0 < (utf8 (quotedUnit u)).length := fun u =>
    List.length_pos_of_ne_nil (utf8_quotedUnit_ne_nil u)
  fun_induction quotedBody s with
  | case1 => exact le_refl _
  | case2 u => exact hunit u
  | case3 u v t hpair ih =>
    rw [Bool.and_eq_true] at hpair
    have := List.length_pos_of_ne_nil (encodeChar_ne_nil (pair u v))
    rw [wellFormed_pair_quoted hpair.1 hpair.2, toWellFormed_cons_cons, hpair.1, hpair.2,
      Bool.and_self, if_pos rfl, List.length_cons, List.length_append]
    omega
  | case4 u v t hpair ih =>
    have := hunit u
    rw [utf8_append (wellFormed_quotedUnit u), toWellFormed_cons_cons, if_neg hpair,
      List.length_append, List.length_cons]
    omega

theorem spells_quotedBody (s : JsString) :
    TrustedOs.GoJson.Spells (utf8 (quotedBody s)) (String.ofList (toWellFormed s)) :=
  TrustedOs.GoJson.spells_of_unquote fun n r hn =>
    unquote_quotedBody s n r (lt_of_le_of_lt (length_le_quotedBody s) hn)

/-! ## What Go writes, JavaScript reads -/

/-- Units in front of a string that is read. -/
def pushUnits (us : JsString) (p : Option (JsString × JsString)) : Option (JsString × JsString) :=
  p.map fun p => (us ++ p.1, p.2)

/-- A character that is written as itself is read as its units. -/
theorem stringBody_units {c : Char} (hc : 0x20 ≤ c.toNat) (hq : c ≠ '"') (he : c ≠ '\\')
    (t : JsString) : stringBody (units c ++ t) = pushUnits (units c) (stringBody t) := by
  have hvalid : c.toNat.isValidChar := c.valid
  unfold units
  split
  · rename_i hlt
    have hnat : (UInt16.ofNat c.toNat).toNat = c.toNat := by
      rw [UInt16.toNat_ofNat', Nat.mod_eq_of_lt hlt]
    have hne : ∀ (u : UInt16) (d : Char), u.toNat = d.toNat → c ≠ d → UInt16.ofNat c.toNat ≠ u := by
      rintro u d hu hd rfl
      exact hd (Char.toNat_inj.1 (hnat.symm.trans hu))
    rw [List.singleton_append, stringBody_plain (hne 34 '"' rfl hq) (hne 92 '\\' rfl he) (by omega)]
    rfl
  · -- two surrogates
    have hhigh : ∀ k < 0x400, (UInt16.ofNat (0xD800 + k)).toNat = 0xD800 + k := by
      intro k hk
      rw [UInt16.toNat_ofNat']
      omega
    have hlow : ∀ k < 0x400, (UInt16.ofNat (0xDC00 + k)).toNat = 0xDC00 + k := by
      intro k hk
      rw [UInt16.toNat_ofNat']
      omega
    have hlarge : ∀ u : UInt16, 128 ≤ u.toNat → u ≠ 34 ∧ u ≠ 92 ∧ 32 ≤ u.toNat := by
      intro u hu
      refine ⟨?_, ?_, by omega⟩
      · rintro rfl
        exact absurd hu (by decide)
      · rintro rfl
        exact absurd hu (by decide)
    have hrange : c.toNat < 0x110000 := by
      rcases hvalid with h | h
      · omega
      · exact h.2
    obtain ⟨h1, h2, h3⟩ := hlarge (UInt16.ofNat (0xD800 + (c.toNat - 0x10000) / 0x400))
      (by rw [hhigh _ (by omega)]; omega)
    obtain ⟨h1', h2', h3'⟩ := hlarge (UInt16.ofNat (0xDC00 + (c.toNat - 0x10000) % 0x400))
      (by rw [hlow _ (by omega)]; omega)
    rw [List.cons_append, List.singleton_append, stringBody_plain h1 h2 h3,
      stringBody_plain h1' h2' h3']
    cases stringBody t with
    | none => rfl
    | some p => rfl

theorem stringBody_letter {d c : Char} {l u : UInt16} (hl : [d].flatMap units = [l]) (hne : l ≠ 117)
    (hu : simpleEscape l = some u) (hc : units c = [u]) (t : JsString) :
    stringBody (['\\', d].flatMap units ++ t) = pushUnits (units c) (stringBody t) := by
  have hcons : ['\\', d].flatMap units ++ t = 92 :: l :: t := by
    rw [List.flatMap_cons, hl]
    rfl
  rw [hcons, stringBody_escape hne hu, hc]
  rfl

theorem stringBody_unicode {a b c d : Char} {v : ℕ} (t : JsString)
    (h : hexUnit (UInt16.ofNat a.toNat) (UInt16.ofNat b.toNat) (UInt16.ofNat c.toNat)
      (UInt16.ofNat d.toNat) = some (UInt16.ofNat v))
    (hlt : a.toNat < 0x80 ∧ b.toNat < 0x80 ∧ c.toNat < 0x80 ∧ d.toNat < 0x80) {e : Char}
    (he : units e = [UInt16.ofNat v]) :
    stringBody (['\\', 'u', a, b, c, d].flatMap units ++ t) = pushUnits (units e) (stringBody t) := by
  have hunits : ∀ x : Char, x.toNat < 0x80 → units x = [UInt16.ofNat x.toNat] := fun x hx =>
    if_pos (by omega)
  have hcons : ['\\', 'u', a, b, c, d].flatMap units ++ t = 92 :: 117 :: UInt16.ofNat a.toNat ::
      UInt16.ofNat b.toNat :: UInt16.ofNat c.toNat :: UInt16.ofNat d.toNat :: t := by
    simp only [List.flatMap_cons, List.flatMap_nil, hunits a hlt.1, hunits b hlt.2.1,
      hunits c hlt.2.2.1, hunits d hlt.2.2.2]
    rfl
  rw [hcons, stringBody.eq_def]
  simp only [if_neg (show ¬ (92 : UInt16) = 34 by decide), if_true, h, Option.bind_some]
  rw [he]
  rfl

/-- A character that Go writes is read as its units. -/
theorem stringBody_goEscape (c : Char) (t : JsString) :
    stringBody ((goEscape c).flatMap units ++ t) = pushUnits (units c) (stringBody t) := by
  have hhex : ∀ n < 16, (hexChar n).toNat < 0x80 := by decide
  have hunits : c.toNat < 0x10000 → units c = [UInt16.ofNat c.toNat] := fun h => if_pos h
  unfold goEscape
  split
  · subst c
    exact stringBody_letter (l := 34) (by decide) (by decide) rfl (by decide) t
  split
  · subst c
    exact stringBody_letter (l := 92) (by decide) (by decide) rfl (by decide) t
  split
  · subst c
    exact stringBody_letter (l := 98) (by decide) (by decide) rfl (by decide) t
  split
  · subst c
    exact stringBody_letter (l := 102) (by decide) (by decide) rfl (by decide) t
  split
  · subst c
    exact stringBody_letter (l := 110) (by decide) (by decide) rfl (by decide) t
  split
  · subst c
    exact stringBody_letter (l := 114) (by decide) (by decide) rfl (by decide) t
  split
  · subst c
    exact stringBody_letter (l := 116) (by decide) (by decide) rfl (by decide) t
  rename_i hq he _ _ _ _ _
  split
  · rename_i hctl
    have hread : ∀ n < 128, hexUnit 48 48 (UInt16.ofNat (hexChar (n / 16)).toNat)
        (UInt16.ofNat (hexChar (n % 16)).toNat) = some (UInt16.ofNat n) := by decide +kernel
    have hlt : c.toNat < 128 := by
      rcases hctl with h | rfl | rfl | rfl
      · omega
      · decide
      · decide
      · decide
    exact stringBody_unicode (a := '0') (b := '0') t (hread _ hlt)
      ⟨by decide, by decide, hhex _ (by omega), hhex _ (by omega)⟩ (hunits (by omega))
  split
  · rename_i hline
    have hread : ∀ n, n = 0x2028 ∨ n = 0x2029 → hexUnit 50 48 50 (UInt16.ofNat (hexChar (n % 16)).toNat) =
        some (UInt16.ofNat n) ∧ (hexChar (n % 16)).toNat < 0x80 := by
      rintro n (rfl | rfl)
      · decide
      · decide
    obtain ⟨hval, hlt⟩ := hread _ hline
    exact stringBody_unicode (a := '2') (b := '0') (c := '2') t hval ⟨by decide, by decide, by decide, hlt⟩ (hunits (by omega))
  · rename_i hctl _
    rw [List.flatMap_singleton]
    exact stringBody_units (by omega) hq he t

/-- **What Go writes between quotes, JavaScript reads.** -/
theorem stringBody_goString (s : String) (r : JsString) :
    stringBody ((goString s).flatMap units ++ 34 :: r) = some (s.toList.flatMap units, r) := by
  unfold goString
  induction s.toList with
  | nil => exact stringBody_quote r
  | cons c cs ih =>
    rw [List.flatMap_cons, List.flatMap_append, List.append_assoc, stringBody_goEscape, ih]
    rfl

end SealedSky.Host
