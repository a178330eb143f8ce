import SealedSky.Js.JsonRoundtrip
import SealedSky.Lib.Base64
import SealedSky.Lib.UrlEncoded
import SealedSky.Lib.Utf8Lossy

/-!
# Text and bytes in the browser

`TextDecoder`, `btoa`, `atob`, `URLSearchParams`, `encodeURIComponent` and `parseInt`, each on any
input, and what they make of texts that were made for them.

* `textDecode_utf8` — a text is decoded from its UTF-8 form.
* `atob_btoa` — bytes are read back from their base64 text.
* `searchParams_serialize` — parameters are read back from their text.
* `parseInt_toString` — a whole number is read back from its digits.
-/
namespace SealedSky.Js

open Utf8 Binary64

/-! ## `TextDecoder` -/

/-- The byte order mark in front of a text is no part of it. -/
def stripBom : List UInt8 → List UInt8
  | a :: b :: c :: r => if a = 0xEF ∧ b = 0xBB ∧ c = 0xBF then r else a :: b :: c :: r
  | bs => bs

/-- `new TextDecoder().decode(bs)`. -/
def textDecode (bs : List UInt8) : JsString := (decodeLossy (stripBom bs)).flatMap units

theorem stripBom_encode {cs : List Char} (h : cs.head? ≠ some '\uFEFF') :
    stripBom (encode cs) = encode cs := by
  generalize hbs : encode cs = bs
  match bs, hbs with
  | [], _ => rfl
  | [_], _ => rfl
  | [_, _], _ => rfl
  | a :: b :: c :: r, hbs =>
    rw [stripBom, if_neg]
    rintro ⟨rfl, rfl, rfl⟩
    cases cs with
    | nil => cases hbs
    | cons d cs =>
      have hnext := next_encodeChar d (encode cs)
      rw [← encode_cons, hbs] at hnext
      have hmark : Utf8.next (0xEF :: 0xBB :: 0xBF :: r) = some ('\uFEFF', r) := rfl
      rw [hmark] at hnext
      exact h (congrArg some (Prod.mk.inj (Option.some.inj hnext)).1.symm)

/-- **A text is decoded from its UTF-8 form**, but for a mark in front of it. -/
theorem textDecode_utf8 {s : JsString} (h : WellFormed s) (hmark : s.head? ≠ some 0xFEFF) :
    textDecode (utf8 s) = s := by
  have hhead : (toWellFormed s).head? ≠ some '\uFEFF' := by
    intro hc
    have hs := h.flatMap_units
    obtain ⟨cs, hcs⟩ : ∃ cs, toWellFormed s = '\uFEFF' :: cs := by
      cases ht : toWellFormed s with
      | nil =>
        rw [ht] at hc
        cases hc
      | cons c cs =>
        rw [ht] at hc
        exact ⟨cs, by rw [Option.some.inj hc]⟩
    rw [hcs, List.flatMap_cons] at hs
    exact hmark (hs ▸ rfl)
  rw [textDecode, utf8, stripBom_encode hhead, decodeLossy_encode, h.flatMap_units]

/-- A mark in front of a text is gone after decoding. -/
theorem textDecode_mark {s : JsString} (h : WellFormed s) : textDecode (utf8 (0xFEFF :: s)) = s := by
  have hbytes : utf8 (0xFEFF :: s) = 0xEF :: 0xBB :: 0xBF :: utf8 s := by
    rw [utf8, toWellFormed_cons (by decide), encode_cons]
    rfl
  rw [textDecode, hbytes, stripBom, if_pos ⟨rfl, rfl, rfl⟩, utf8, decodeLossy_encode,
    h.flatMap_units]

/-- **Exactly the texts without a mark in front** come back from their UTF-8 form. -/
theorem textDecode_utf8_iff {s : JsString} (h : WellFormed s) :
    textDecode (utf8 s) = s ↔ s.head? ≠ some 0xFEFF := by
  constructor
  · intro hback hmark
    cases h with
    | nil => cases hmark
    | @unit u r hh hl hr =>
      cases hmark
      rw [textDecode_mark hr] at hback
      exact absurd (congrArg List.length hback) (by simp)
    | @pair u v r hu hv hr =>
      cases hmark
      cases hu
  · exact textDecode_utf8 h

/-- What was decoded has no lone surrogates. -/
theorem wellFormed_units (c : Char) : WellFormed (units c) := by
  have hvalid : c.toNat.isValidChar := c.valid
  unfold units
  split
  · rename_i hsmall
    refine .unit ?_ ?_ .nil <;>
      simp only [isHigh, isLow, UInt16.toNat_ofNat', decide_eq_false_iff_not] <;>
      unfold Nat.isValidChar at hvalid <;> omega
  · rename_i hlarge
    have hle : c.toNat < 0x110000 := by
      unfold Nat.isValidChar at hvalid
      omega
    refine .pair ?_ ?_ .nil <;>
      simp only [isHigh, isLow, UInt16.toNat_ofNat', decide_eq_true_eq] <;> omega

theorem wellFormed_flatMap_units (cs : List Char) : WellFormed (cs.flatMap units) := by
  induction cs with
  | nil => exact .nil
  | cons c cs ih =>
    rw [List.flatMap_cons]
    exact (wellFormed_units c).append ih

/-- **Exactly the texts without lone surrogates and without a mark in front** come back at all. -/
theorem textDecode_utf8_eq_iff {s : JsString} :
    textDecode (utf8 s) = s ↔ WellFormed s ∧ s.head? ≠ some 0xFEFF := by
  constructor
  · intro hback
    have hwell : WellFormed s := by
      rw [← hback]
      exact wellFormed_flatMap_units _
    exact ⟨hwell, (textDecode_utf8_iff hwell).1 hback⟩
  · rintro ⟨hwell, hmark⟩
    exact textDecode_utf8 hwell hmark

/-! ## `btoa` and `atob` -/

/-- The letter of six bits. -/
def b64Unit (n : ℕ) : UInt16 :=
  if n < 26 then UInt16.ofNat (65 + n)
  else if n < 52 then UInt16.ofNat (71 + n)
  else if n < 62 then UInt16.ofNat (n - 4)
  else if n = 62 then 43
  else 47

def b64Val (u : UInt16) : Option ℕ :=
  if 65 ≤ u.toNat ∧ u.toNat ≤ 90 then some (u.toNat - 65)
  else if 97 ≤ u.toNat ∧ u.toNat ≤ 122 then some (u.toNat - 71)
  else if 48 ≤ u.toNat ∧ u.toNat ≤ 57 then some (u.toNat + 4)
  else if u = 43 then some 62
  else if u = 47 then some 63
  else none

/-- `=` up to a multiple of four. -/
def padding (n : ℕ) : JsString := List.replicate ((4 - n % 4) % 4) 61

def b64Units (bs : List UInt8) : JsString := (Base64.sextets bs).map b64Unit

/-- `btoa`, of the string with these bytes. -/
def btoa (bs : List UInt8) : JsString := b64Units bs ++ padding (b64Units bs).length

def isAsciiSpace (u : UInt16) : Bool := u == 9 || u == 10 || u == 12 || u == 13 || u == 32

/-- One or two `=` at the end. -/
def dropPadding (s : JsString) : JsString :=
  match s.reverse with
  | u :: v :: r =>
    if u = 61 then if v = 61 then r.reverse else (v :: r).reverse else s
  | [u] => if u = 61 then [] else s
  | [] => s

/-- `atob`, and the bytes of its string, `none` where it throws. -/
def atob (s : JsString) : Option (List UInt8) :=
  let data := s.filter fun u => !isAsciiSpace u
  let data := if data.length % 4 = 0 then dropPadding data else data
  if data.length % 4 = 1 then none else (data.mapM b64Val).map Base64.ofSextets

theorem b64Unit_plain : ∀ n < 64, isAsciiSpace (b64Unit n) = false ∧ b64Unit n ≠ 61 ∧
    b64Val (b64Unit n) = some n := by decide

theorem mem_b64Units {bs : List UInt8} {u : UInt16} (h : u ∈ b64Units bs) :
    ∃ n < 64, u = b64Unit n := by
  obtain ⟨n, hn, rfl⟩ := List.mem_map.1 h
  exact ⟨n, Base64.sextets_lt bs n hn, rfl⟩

theorem b64Units_length (bs : List UInt8) : (b64Units bs).length % 4 ≠ 1 := by
  rw [b64Units, List.length_map, Base64.sextets_length]
  omega

theorem mapM_b64Val {ns : List ℕ} (h : ∀ n ∈ ns, n < 64) :
    (ns.map b64Unit).mapM b64Val = some ns := by
  induction ns with
  | nil => rfl
  | cons n ns ih =>
    rw [List.map_cons, List.mapM_cons, (b64Unit_plain n (h n List.mem_cons_self)).2.2,
      ih fun m hm => h m (List.mem_cons_of_mem n hm)]
    rfl

theorem dropPadding_append {s : JsString} (h : ∀ u ∈ s, u ≠ 61) (hlen : s.length % 4 ≠ 1) :
    dropPadding (s ++ padding s.length) = s := by
  have hlast : ∀ {u r}, s.reverse = u :: r → u ≠ 61 := fun hr =>
    h _ (List.mem_reverse.1 (hr ▸ List.mem_cons_self))
  have hback : ∀ {t}, s.reverse = t → t.reverse = s := fun ht => by
    rw [← ht, List.reverse_reverse]
  have hmod : s.length % 4 = 0 ∨ s.length % 4 = 2 ∨ s.length % 4 = 3 := by omega
  unfold dropPadding padding
  rw [List.reverse_append, List.reverse_replicate]
  generalize hr : s.reverse = t
  obtain hm | hm | hm := hmod
  · rw [hm]
    match t, hr with
    | [], hr => exact List.append_nil s
    | [u], hr => exact (if_neg (hlast hr)).trans (List.append_nil s)
    | u :: v :: r, hr => exact (if_neg (hlast hr)).trans (List.append_nil s)
  · rw [hm]
    exact hback hr
  · rw [hm]
    match t, hr with
    | [], hr =>
      have hnil : s = [] := List.reverse_eq_nil_iff.1 hr
      rw [hnil] at hm
      cases hm
    | u :: r, hr =>
      have hu := hlast hr
      exact (if_pos rfl).trans ((if_neg hu).trans (hback hr))

/-- **Bytes are read back from their base64 text.** -/
theorem atob_btoa (bs : List UInt8) : atob (btoa bs) = some bs := by
  have hplain : ∀ u ∈ b64Units bs, isAsciiSpace u = false ∧ u ≠ 61 := by
    intro u hu
    obtain ⟨n, hn, rfl⟩ := mem_b64Units hu
    exact ⟨(b64Unit_plain n hn).1, (b64Unit_plain n hn).2.1⟩
  have hpad : ∀ u ∈ padding (b64Units bs).length, u = 61 := fun u hu => List.eq_of_mem_replicate hu
  have hlen := b64Units_length bs
  have hfilter : (btoa bs).filter (fun u => !isAsciiSpace u) = btoa bs := by
    refine List.filter_eq_self.2 fun u hu => ?_
    rcases List.mem_append.1 hu with hu | hu
    · rw [(hplain u hu).1]
      rfl
    · rw [hpad u hu]
      rfl
  have hmul : (btoa bs).length % 4 = 0 := by
    rw [btoa, List.length_append, padding, List.length_replicate]
    omega
  unfold atob
  simp only [hfilter, hmul, if_true]
  rw [btoa, dropPadding_append (fun u hu => (hplain u hu).2) hlen, if_neg hlen, b64Units,
    mapM_b64Val (Base64.sextets_lt bs), Option.map_some, Base64.ofSextets_sextets]

/-! ## `URLSearchParams` and `encodeURIComponent` -/

/-- The string of bytes that are all ASCII. -/
def asciiText (bs : List UInt8) : JsString := bs.map fun b => UInt16.ofNat b.toNat

/-- `new URLSearchParams(s)`, the pairs in order. -/
def searchParams (s : JsString) : List (JsString × JsString) :=
  let s := if s.head? = some 63 then s.tail else s
  (UrlEncoded.parse (utf8 s)).map fun p =>
    ((decodeLossy p.1).flatMap units, (decodeLossy p.2).flatMap units)

/-- `params.get(name)`. -/
def getParam (ps : List (JsString × JsString)) (name : JsString) : Option JsString :=
  (ps.find? fun p => p.1 = name).map Prod.snd

/-- `params.toString()`. -/
def serializeParams (ps : List (JsString × JsString)) : JsString :=
  asciiText (UrlEncoded.serialize (ps.map fun p => (utf8 p.1, utf8 p.2)))

/-- What `encodeURIComponent` leaves as it is. -/
def isUnreserved (b : UInt8) : Bool :=
  UrlEncoded.isAlnum b || (js "-_.!~*'()").contains (UInt16.ofNat b.toNat)

/-- `encodeURIComponent(s)`, `none` where it throws. -/
def encodeURIComponent (s : JsString) : Option JsString :=
  if (toWellFormed s).flatMap units = s then
    some (asciiText ((utf8 s).flatMap fun b => if isUnreserved b then [b] else UrlEncoded.percent b))
  else none

theorem utf8_asciiText {bs : List UInt8} (h : ∀ b ∈ bs, b.toNat < 0x80) :
    utf8 (asciiText bs) = bs := by
  induction bs with
  | nil => rfl
  | cons b bs ih =>
    have hb : b.toNat < 0x80 := h b List.mem_cons_self
    have hnat : (UInt16.ofNat b.toNat).toNat = b.toNat := by
      rw [UInt16.toNat_ofNat']
      omega
    have hh : isHigh (UInt16.ofNat b.toNat) = false := by
      rw [isHigh, hnat, decide_eq_false_iff_not]
      omega
    have hl : isLow (UInt16.ofNat b.toNat) = false := by
      rw [isLow, hnat, decide_eq_false_iff_not]
      omega
    have hsingle : single (UInt16.ofNat b.toNat) = Char.ofNat b.toNat := by
      rw [single, hh, hl, hnat]
      rfl
    have hvalid : b.toNat.isValidChar := Or.inl (by omega)
    have hchar : (Char.ofNat b.toNat).toNat = b.toNat := toNat_ofNat hvalid
    have hrest := ih fun c hc => h c (List.mem_cons_of_mem b hc)
    rw [utf8, asciiText] at hrest
    rw [utf8, asciiText, List.map_cons, toWellFormed_cons hh, encode_cons, hsingle,
      encodeChar_ascii (by rw [hchar]; exact hb), hchar, UInt8.ofNat_toNat, hrest,
      List.singleton_append]

theorem serialize_plain (ps : List (List UInt8 × List UInt8)) :
    ∀ b ∈ UrlEncoded.serialize ps, b.toNat < 0x80 ∧ b ≠ 63 := by
  have hbyte : ∀ b : UInt8, ∀ c ∈ UrlEncoded.encodeByte b, c.toNat < 0x80 ∧ c ≠ 63 :=
    UrlEncoded.forall_byte (by decide +kernel)
  have hencode : ∀ bs, ∀ b ∈ UrlEncoded.encode bs, b.toNat < 0x80 ∧ b ≠ 63 := by
    intro bs b hb
    obtain ⟨a, -, ha⟩ := List.mem_flatMap.1 hb
    exact hbyte a b ha
  have hpair : ∀ p, ∀ b ∈ UrlEncoded.encodePair p, b.toNat < 0x80 ∧ b ≠ 63 := by
    intro p b hb
    rcases List.mem_append.1 hb with hb | hb
    · exact hencode p.1 b hb
    · rcases List.mem_cons.1 hb with rfl | hb
      · decide
      · exact hencode p.2 b hb
  unfold UrlEncoded.serialize
  induction ps with
  | nil =>
    rintro b ⟨⟩
  | cons p ps ih =>
    cases ps with
    | nil =>
      rw [List.map_singleton, List.intercalate_singleton]
      exact hpair p
    | cons q ps =>
      intro b hb
      rw [List.map_cons, List.intercalate_cons_of_ne_nil (by simp)] at hb
      rcases List.mem_append.1 hb with hb | hb
      · rcases List.mem_append.1 hb with hb | hb
        · exact hpair p b hb
        · rw [List.mem_singleton.1 hb]
          decide
      · exact ih b hb

theorem serializeParams_head (ps : List (JsString × JsString)) :
    (serializeParams ps).head? ≠ some 63 := by
  have hplain := serialize_plain (ps.map fun p => (utf8 p.1, utf8 p.2))
  unfold serializeParams asciiText
  intro hmark
  rw [List.head?_map] at hmark
  obtain ⟨b, hb, hunit⟩ := Option.map_eq_some_iff.1 hmark
  have hmem := List.mem_of_mem_head? hb
  have hnat := congrArg UInt16.toNat hunit
  have hb' : b.toNat < 0x80 := (hplain b hmem).1
  rw [UInt16.toNat_ofNat', Nat.mod_eq_of_lt (by omega)] at hnat
  exact (hplain b hmem).2 (UInt8.toNat_inj.1 hnat)

/-- **Parameters are read back from their text.** -/
theorem searchParams_serialize {ps : List (JsString × JsString)}
    (h : ∀ p ∈ ps, WellFormed p.1 ∧ WellFormed p.2) : searchParams (serializeParams ps) = ps := by
  have hplain := serialize_plain (ps.map fun p => (utf8 p.1, utf8 p.2))
  have hread : utf8 (serializeParams ps) =
      UrlEncoded.serialize (ps.map fun p => (utf8 p.1, utf8 p.2)) :=
    utf8_asciiText fun b hb => (hplain b hb).1
  unfold searchParams
  simp only [if_neg (serializeParams_head ps), hread, UrlEncoded.parse_serialize, List.map_map]
  refine (List.map_congr_left fun p hp => ?_).trans (List.map_id ps)
  obtain ⟨hname, hvalue⟩ := h p hp
  simp only [Function.comp_apply, utf8, decodeLossy_encode, hname.flatMap_units,
    hvalue.flatMap_units, id_eq]

/-- The question mark in front of a query is no part of it. -/
theorem searchParams_mark {s : JsString} (h : s.head? ≠ some 63) :
    searchParams (63 :: s) = searchParams s := by
  unfold searchParams
  simp only [List.head?_cons, if_true, List.tail_cons, if_neg h]

theorem toWellFormed_units (c : Char) : toWellFormed (units c) = [c] := by
  have hvalid : c.toNat.isValidChar := c.valid
  unfold units
  split
  · rename_i hsmall
    have hnat : (UInt16.ofNat c.toNat).toNat = c.toNat := by
      rw [UInt16.toNat_ofNat', Nat.mod_eq_of_lt hsmall]
    have hplain : ¬ (isHigh (UInt16.ofNat c.toNat) || isLow (UInt16.ofNat c.toNat)) = true := by
      simp only [isHigh, isLow, hnat, Bool.or_eq_true, decide_eq_true_eq]
      unfold Nat.isValidChar at hvalid
      omega
    rw [toWellFormed, single, if_neg hplain, hnat, Char.ofNat_toNat]
  · rename_i hlarge
    have hle : c.toNat < 0x110000 := by
      unfold Nat.isValidChar at hvalid
      omega
    have hhigh : (UInt16.ofNat (0xD800 + (c.toNat - 0x10000) / 0x400)).toNat =
        0xD800 + (c.toNat - 0x10000) / 0x400 := by
      rw [UInt16.toNat_ofNat']
      omega
    have hlow : (UInt16.ofNat (0xDC00 + (c.toNat - 0x10000) % 0x400)).toNat =
        0xDC00 + (c.toNat - 0x10000) % 0x400 := by
      rw [UInt16.toNat_ofNat']
      omega
    have hboth : (isHigh (UInt16.ofNat (0xD800 + (c.toNat - 0x10000) / 0x400)) &&
        isLow (UInt16.ofNat (0xDC00 + (c.toNat - 0x10000) % 0x400))) = true := by
      simp only [isHigh, isLow, hhigh, hlow, Bool.and_eq_true, decide_eq_true_eq]
      omega
    have hback : ((c.toNat - 0x10000) / 0x400) * 0x400 + (c.toNat - 0x10000) % 0x400 + 0x10000 =
        c.toNat := by omega
    rw [toWellFormed_cons_cons, if_pos hboth, pair, hhigh, hlow, Nat.add_sub_cancel_left,
      Nat.add_sub_cancel_left, hback, Char.ofNat_toNat, toWellFormed]

/-- A text is read back from its code units. -/
theorem toWellFormed_flatMap_units (cs : List Char) : toWellFormed (cs.flatMap units) = cs := by
  induction cs with
  | nil => rfl
  | cons c cs ih =>
    rw [List.flatMap_cons, (wellFormed_units c).toWellFormed_append, toWellFormed_units, ih,
      List.singleton_append]

theorem wellFormed_searchParams {s : JsString} :
    ∀ p ∈ searchParams s, WellFormed p.1 ∧ WellFormed p.2 := by
  intro p hp
  obtain ⟨q, -, rfl⟩ := List.mem_map.1 hp
  exact ⟨wellFormed_flatMap_units _, wellFormed_flatMap_units _⟩

/-! ## `parseInt` -/

/-- `parseInt(s, 10)`. -/
def parseInt (s : JsString) : JsNum :=
  let t := signed (s.dropWhile isSpace)
  let ds := (scanDigits t.2).1
  if ds = [] then .nan else if t.1 then (ofRat (natOf ds)).neg else ofRat (natOf ds)

/-- `/^\d+$/`. -/
def isDigits (s : JsString) : Bool := !s.isEmpty && s.all fun u => (digitVal u).isSome

theorem search_first {x : ℚ} {n : ℤ} (f : ℕ) : ∀ {k k' : ℕ} {s : ℤ},
    search x n f k = some (k', s) → ∀ j, k ≤ j → j < k' → candidate x n j = none := by
  induction f with
  | zero =>
    intro k k' s h
    cases (show none = some (k', s) from h)
  | succ f ih =>
    intro k k' s h j hkj hjk'
    rw [search_succ] at h
    cases hc : candidate x n k with
    | none =>
      rw [hc] at h
      by_cases hj : j = k
      · rw [hj, hc]
      · exact ih h j (by omega) hjk'
    | some s' =>
      rw [hc] at h
      obtain ⟨rfl, rfl⟩ := Prod.mk.inj (Option.some.inj h)
      omega

/-- A whole number needs no digits behind its point. -/
theorem shortest_whole {m : ℕ} (hpos : 0 < m) (hm : m < 10 ^ 20) (hx : round? (m : ℚ) = some ↑m) :
    ((shortest m).1.length : ℤ) ≤ (shortest m).2 ∧ (shortest m).2 ≤ 21 := by
  have hposq : (0 : ℚ) < m := by exact_mod_cast hpos
  have hlog : Int.log 10 (m : ℚ) = Nat.log 10 m := Int.log_natCast 10 m
  have hlog20 : Nat.log 10 m < 20 := Nat.log_lt_of_lt_pow (by omega) hm
  obtain ⟨⟨k, s⟩, hks⟩ := Option.isSome_iff_exists.1 (search_isSome hposq hx)
  obtain ⟨hk, hs⟩ := search_sound _ hks
  obtain ⟨hlo, hhi⟩ := candidate_bounds hposq hk hs
  -- as many digits as the number has in front of its point will do
  have hkn : k ≤ Nat.log 10 m + 1 := by
    by_contra hlt
    have hnone := search_first _ hks (Nat.log 10 m + 1) (by omega) (by omega)
    have hexact : (candidate m (Int.log 10 (m : ℚ) + 1) (Nat.log 10 m + 1)).isSome := by
      refine candidate_exact (z := m) hx ?_
      rw [hlog]
      push_cast
      simp
    rw [hnone] at hexact
    cases hexact
  have hpow : (0 : ℤ) < 10 ^ (k - 1) := by positivity
  unfold shortest
  simp only [hks]
  split
  · have hlen : (digitsOf (10 ^ (k - 1))).length = k :=
      digitsOf_length hk (le_refl _) (Nat.pow_lt_pow_right (by decide) (by omega))
    simp only [hlen, hlog]
    omega
  · rename_i htop
    obtain ⟨j, rfl⟩ := Int.eq_ofNat_of_zero_le (show 0 ≤ s by omega)
    have hlo' : 10 ^ (k - 1) ≤ j := by exact_mod_cast hlo
    have hhi' : j < 10 ^ k := by
      refine lt_of_le_of_ne (by exact_mod_cast hhi) fun h => htop ?_
      exact_mod_cast h
    simp only [Int.toNat_natCast, digitsOf_length hk hlo' hhi', hlog]
    omega

/-- A whole number is printed with digits alone. -/
theorem toString_whole {x : Double} {m : ℕ} (hx : x.val = m) (hm : m < 10 ^ 20) :
    ∃ ds : List ℕ, ds ≠ [] ∧ (∀ d ∈ ds, d < 10) ∧ (ds = [0] ∨ ds.head? ≠ some 0) ∧
      toString (.fin x) = digitUnits ds ∧ ofRat (natOf ds) = .fin x := by
  by_cases hzero : x.val = 0
  · refine ⟨[0], by decide, by decide, Or.inl rfl, ?_, ?_⟩
    · simp only [toString, hzero, if_true]
      decide
    · have hread : ofRat (natOf [0] : ℚ) = .fin ⟨0, by decide +kernel⟩ := by decide +kernel
      rw [hread]
      exact congrArg JsNum.fin (Double.ext hzero.symm)
  · have hpos : 0 < m := by
      rw [hx] at hzero
      exact Nat.pos_of_ne_zero fun h => hzero (by rw [h, Nat.cast_zero])
    have hrep := x.rep
    rw [hx] at hrep
    obtain ⟨hlen, h21⟩ := shortest_whole hpos hm hrep
    obtain ⟨hne, hds, hround⟩ := shortest_spec (by exact_mod_cast hpos) hrep
    have hneg : ¬ (m : ℚ) < 0 := not_lt.2 (Nat.cast_nonneg m)
    have hhead := shortest_head (m : ℚ)
    generalize hn : (shortest (m : ℚ)).2 = n at hlen h21 hround
    generalize hdigits : (shortest (m : ℚ)).1 = ds at hlen hne hds hround hhead
    obtain ⟨j, rfl⟩ : ∃ j : ℕ, n = ds.length + j := ⟨(n - ds.length).toNat, by omega⟩
    have hj : ((ds.length : ℤ) + j - ds.length).toNat = j := by omega
    refine ⟨ds ++ List.replicate j 0, by simp [hne], ?_, Or.inr ?_, ?_, ?_⟩
    · intro d hd
      rcases List.mem_append.1 hd with hd | hd
      · exact hds d hd
      · rw [List.eq_of_mem_replicate hd]
        decide
    · obtain ⟨d, es, rfl⟩ := List.exists_cons_of_ne_nil hne
      exact hhead
    · rw [hx] at hzero
      simp only [toString, hx, hzero, hneg, if_false]
      rw [decimalText, hn, hdigits, layout, if_pos ⟨hlen, h21⟩, hj, digitUnits, digitUnits,
        List.map_append, List.map_replicate]
      rfl
    · refine ofRat_of_round ?_
      have hexp : (ds.length : ℤ) + j - ds.length = j := by omega
      rw [hexp, zpow_natCast] at hround
      rw [natOf_append, natOf_replicate_zero, List.length_replicate, hx]
      push_cast
      rw [add_zero]
      exact hround

theorem isDigits_iff {s : JsString} :
    isDigits s = true ↔ ∃ ds, ds ≠ [] ∧ (∀ d ∈ ds, d < 10) ∧ s = digitUnits ds := by
  constructor
  · intro h
    rw [isDigits, Bool.and_eq_true] at h
    obtain ⟨hne, hall⟩ := h
    have hread : ∃ ds : List ℕ, (∀ d ∈ ds, d < 10) ∧ s = digitUnits ds := by
      clear hne
      induction s with
      | nil => exact ⟨[], by simp, rfl⟩
      | cons u s ih =>
        rw [List.all_cons, Bool.and_eq_true] at hall
        obtain ⟨ds, hds, hs⟩ := ih hall.2
        obtain ⟨d, hd⟩ := Option.isSome_iff_exists.1 hall.1
        obtain ⟨⟨hlo, hhi⟩, -⟩ := Option.ite_none_right_eq_some.1 hd
        refine ⟨(u.toNat - 48) :: ds, ?_, ?_⟩
        · intro e he
          rcases List.mem_cons.1 he with rfl | he
          · omega
          · exact hds e he
        · have hu : 48 + (u.toNat - 48) = u.toNat := by omega
          rw [hs, digitUnits, digitUnits, List.map_cons, hu, UInt16.ofNat_toNat]
    obtain ⟨ds, hds, rfl⟩ := hread
    refine ⟨ds, ?_, hds, rfl⟩
    rintro rfl
    cases hne
  · rintro ⟨ds, hne, hds, rfl⟩
    obtain ⟨d, es, rfl⟩ := List.exists_cons_of_ne_nil hne
    rw [isDigits, Bool.and_eq_true]
    refine ⟨rfl, List.all_eq_true.2 fun u hu => ?_⟩
    obtain ⟨e, he, rfl⟩ := List.mem_map.1 hu
    rw [digitVal_unit e (hds e he)]
    rfl

theorem digitUnit_plain : ∀ d < 10, isSpace (UInt16.ofNat (48 + d)) = false ∧
    (UInt16.ofNat (48 + d) = 48 ↔ d = 0) ∧ UInt16.ofNat (48 + d) ∉ js "xXoObB+-" ∧
      (UInt16.ofNat (48 + d)).toNat < 0x80 := by decide

theorem signed_digitUnits {ds : List ℕ} (hne : ds ≠ []) (hds : ∀ d ∈ ds, d < 10) :
    signed (digitUnits ds) = (false, digitUnits ds) := by
  obtain ⟨d, es, rfl⟩ := List.exists_cons_of_ne_nil hne
  have hu := (digitUnit_plain d (hds d List.mem_cons_self)).2.2.1
  rw [digitUnits, List.map_cons, signed, if_neg, if_neg]
  · intro h
    exact hu (h ▸ by decide)
  · intro h
    exact hu (h ▸ by decide)

/-- **A whole number is read back from its digits.** -/
theorem parseInt_toString {x : Double} {m : ℕ} (hx : x.val = m) (hm : m < 10 ^ 20) :
    isDigits (toString (.fin x)) = true ∧ parseInt (toString (.fin x)) = .fin x := by
  obtain ⟨ds, hne, hds, -, htext, hvalue⟩ := toString_whole hx hm
  rw [htext]
  refine ⟨isDigits_iff.2 ⟨ds, hne, hds, rfl⟩, ?_⟩
  have hdrop : (digitUnits ds).dropWhile isSpace = digitUnits ds := by
    obtain ⟨d, es, rfl⟩ := List.exists_cons_of_ne_nil hne
    refine List.dropWhile_cons_of_neg ?_
    rw [(digitUnit_plain d (hds d List.mem_cons_self)).1]
    decide
  unfold parseInt
  simp only [hdrop, signed_digitUnits hne hds, scanDigits_all hds]
  rw [if_neg hne]
  exact hvalue

/-- A negative one too. -/
theorem parseInt_toString_neg {x : Double} {m : ℕ} (hx : x.val = -m) (hpos : 0 < m)
    (hm : m < 10 ^ 20) : parseInt (toString (.fin x)) = .fin x := by
  have hval : x.neg.val = -x.val := rfl
  have hneg : x.neg.val = m := by rw [hval, hx, neg_neg]
  obtain ⟨ds, hne, hds, -, htext, hvalue⟩ := toString_whole hneg hm
  have hposq : (0 : ℚ) < m := by exact_mod_cast hpos
  have hlt : x.val < 0 := by rw [hx, neg_lt_zero]; exact hposq
  have htext' : toString (.fin x) = 45 :: digitUnits ds := by
    rw [← htext, toString, if_neg hlt.ne, if_pos hlt, toString, hneg, if_neg hposq.ne',
      if_neg hposq.not_gt, hx, neg_neg]
  have hspace : (45 :: digitUnits ds).dropWhile isSpace = 45 :: digitUnits ds :=
    List.dropWhile_cons_of_neg (by decide)
  have hsigned : signed (45 :: digitUnits ds) = (true, digitUnits ds) := rfl
  have hback : x.neg.neg = x := Double.ext (neg_neg x.val)
  rw [htext']
  unfold parseInt
  simp only [hspace, hsigned, scanDigits_all hds, if_neg hne, if_true]
  rw [hvalue, JsNum.neg, hback]

/-! ## Escaped components -/

/-- What a URL in the address bar has for a byte of a component: an apostrophe is escaped too. -/
def queryByte (b : UInt8) : List UInt8 :=
  if isUnreserved b && b != 39 then [b] else UrlEncoded.percent b

/-- `location.search` of what `encodeURIComponent` wrote. -/
def escapeApostrophe (s : JsString) : JsString := s.flatMap fun u => if u = 39 then js "%27" else [u]

theorem escapes_queryByte : UrlEncoded.Escapes queryByte :=
  UrlEncoded.forall_byte (by decide +kernel)

theorem queryByte_ascii : ∀ b : UInt8, ∀ c ∈ queryByte b, c.toNat < 0x80 :=
  UrlEncoded.forall_byte (by decide +kernel)

theorem encodeURIComponent_wellFormed {s : JsString} (h : WellFormed s) : ∃ t,
    encodeURIComponent s = some t ∧ (∀ u ∈ t, u ≠ 35 ∧ u ≠ 63) ∧
      escapeApostrophe t = asciiText ((utf8 s).flatMap queryByte) := by
  refine ⟨_, if_pos h.flatMap_units, fun u hu => ?_, ?_⟩
  · have hbyte : ∀ b : UInt8, ∀ c ∈ (if isUnreserved b then [b] else UrlEncoded.percent b),
        UInt16.ofNat c.toNat ≠ 35 ∧ UInt16.ofNat c.toNat ≠ 63 :=
      UrlEncoded.forall_byte (by decide +kernel)
    obtain ⟨c, hc, rfl⟩ := List.mem_map.1 hu
    obtain ⟨b, -, hb⟩ := List.mem_flatMap.1 hc
    exact hbyte b c hb
  · have hbyte : ∀ b : UInt8,
        escapeApostrophe (asciiText (if isUnreserved b then [b] else UrlEncoded.percent b)) =
          asciiText (queryByte b) := UrlEncoded.forall_byte (by decide +kernel)
    induction utf8 s with
    | nil => rfl
    | cons b bs ih =>
      rw [List.flatMap_cons, List.flatMap_cons, asciiText, List.map_append, ← asciiText, ← asciiText,
        escapeApostrophe, List.flatMap_append, ← escapeApostrophe, ← escapeApostrophe, hbyte, ih,
        asciiText, asciiText, asciiText, List.map_append]

/-- **A component is read back** under a name of letters. -/
theorem searchParams_component {name value : JsString} (hname : WellFormed name)
    (hhead : (name ++ [61]).head? ≠ some 63) (hdecode : UrlEncoded.decode (utf8 name) = utf8 name)
    (hplain : ∀ c ∈ utf8 name, c ≠ 38 ∧ c ≠ 61) (hvalue : WellFormed value) :
    searchParams (name ++ 61 :: asciiText ((utf8 value).flatMap queryByte)) = [(name, value)] := by
  have hmark : (name ++ 61 :: asciiText ((utf8 value).flatMap queryByte)).head? ≠ some 63 := by
    cases name with
    | nil => exact hhead
    | cons u r => exact hhead
  have hascii : ∀ c ∈ 61 :: (utf8 value).flatMap queryByte, c.toNat < 0x80 := by
    intro c hc
    rcases List.mem_cons.1 hc with rfl | hc
    · decide
    · obtain ⟨b, -, hb⟩ := List.mem_flatMap.1 hc
      exact queryByte_ascii b c hb
  have hbytes : utf8 (name ++ 61 :: asciiText ((utf8 value).flatMap queryByte)) =
      utf8 name ++ 61 :: (utf8 value).flatMap queryByte := by
    have happend : utf8 (name ++ 61 :: asciiText ((utf8 value).flatMap queryByte)) =
        utf8 name ++ utf8 (asciiText (61 :: (utf8 value).flatMap queryByte)) := by
      rw [utf8, hname.toWellFormed_append, encode_append]
      rfl
    rw [happend, utf8_asciiText hascii]
  unfold searchParams
  simp only [if_neg hmark]
  rw [hbytes, escapes_queryByte.parse_pair hdecode hplain, List.map_singleton]
  simp only [utf8, decodeLossy_encode, hname.flatMap_units, hvalue.flatMap_units]

end SealedSky.Js
