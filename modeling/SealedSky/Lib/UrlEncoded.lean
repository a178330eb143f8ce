import Mathlib.Data.List.Basic

/-!
# Form-encoded bytes

`application/x-www-form-urlencoded` on byte strings: names and values with `=` between them and `&`
between the pairs, everything but letters, digits and `*-._` as `%XX`, and a blank as `+`.

* `decode_encode` — a name or a value is read back.
* `parse_serialize` — so are the pairs.
* `Escapes.parse_pair` — a pair is also read back from other escapes that leave no separator.
-/
namespace SealedSky.UrlEncoded

/-- Letters and digits. -/
def isAlnum (b : UInt8) : Bool :=
  decide (48 ≤ b.toNat ∧ b.toNat ≤ 57 ∨ 65 ≤ b.toNat ∧ b.toNat ≤ 90 ∨ 97 ≤ b.toNat ∧ b.toNat ≤ 122)

/-- What stands for itself. -/
def isSafe (b : UInt8) : Bool := isAlnum b || b == 42 || b == 45 || b == 46 || b == 95

def upperHex (n : Nat) : UInt8 := if n < 10 then UInt8.ofNat (48 + n) else UInt8.ofNat (55 + n)

def percent (b : UInt8) : List UInt8 := [37, upperHex (b.toNat / 16), upperHex (b.toNat % 16)]

def encodeByte (b : UInt8) : List UInt8 :=
  if isSafe b then [b] else if b = 32 then [43] else percent b

def encode (bs : List UInt8) : List UInt8 := bs.flatMap encodeByte

def hexVal (b : UInt8) : Option Nat :=
  if 48 ≤ b.toNat ∧ b.toNat ≤ 57 then some (b.toNat - 48)
  else if 65 ≤ b.toNat ∧ b.toNat ≤ 70 then some (b.toNat - 55)
  else if 97 ≤ b.toNat ∧ b.toNat ≤ 102 then some (b.toNat - 87)
  else none

/-- The byte two hexadecimal digits stand for. -/
def hexPair (a b : UInt8) : Option UInt8 :=
  (hexVal a).bind fun m => (hexVal b).map fun n => UInt8.ofNat (m * 16 + n)

/-- `+` is a blank, and a `%` without two hexadecimal digits stands for itself. -/
def decode : List UInt8 → List UInt8
  | 37 :: a :: b :: r =>
    match hexPair a b with
    | some c => c :: decode r
    | none => 37 :: decode (a :: b :: r)
  | b :: r => (if b = 43 then 32 else b) :: decode r
  | [] => []

/-- A name, `=` and a value. -/
def encodePair (p : List UInt8 × List UInt8) : List UInt8 := encode p.1 ++ 61 :: encode p.2

def serialize (ps : List (List UInt8 × List UInt8)) : List UInt8 :=
  [38].intercalate (ps.map encodePair)

/-- What stands in front of the first `=`, and behind it. -/
def decodePair (bs : List UInt8) : List UInt8 × List UInt8 :=
  (decode (bs.takeWhile (· != 61)), decode ((bs.dropWhile (· != 61)).drop 1))

def parse (bs : List UInt8) : List (List UInt8 × List UInt8) :=
  ((bs.splitOn 38).filter (· ≠ [])).map decodePair

theorem forall_byte {p : UInt8 → Prop} (h : ∀ n < 256, p (UInt8.ofNat n)) (b : UInt8) : p b := by
  have hb := h b.toNat b.toNat_lt
  rwa [UInt8.ofNat_toNat] at hb

/-- The separators never come out of an encoding. -/
theorem encodeByte_separator :
    ∀ b : UInt8, (38 : UInt8) ∉ encodeByte b ∧ (61 : UInt8) ∉ encodeByte b :=
  forall_byte (by decide +kernel)

theorem hexPair_percent : ∀ b : UInt8,
    hexPair (upperHex (b.toNat / 16)) (upperHex (b.toNat % 16)) = some b :=
  forall_byte (by decide +kernel)

theorem isSafe_plain : ∀ b : UInt8, isSafe b = true → b ≠ 37 ∧ b ≠ 43 :=
  forall_byte (by decide +kernel)

theorem decode_cons {b : UInt8} (h : b ≠ 37) (r : List UInt8) :
    decode (b :: r) = (if b = 43 then 32 else b) :: decode r := by
  rw [decode.eq_def]
  split
  · rename_i heq
    exact absurd (List.cons.inj heq).1 h
  · rename_i heq
    obtain ⟨rfl, rfl⟩ := List.cons.inj heq
    rfl
  · rename_i heq
    cases heq

theorem decode_encodeByte (b : UInt8) (r : List UInt8) :
    decode (encodeByte b ++ r) = b :: decode r := by
  unfold encodeByte
  split
  · rename_i hsafe
    obtain ⟨h37, h43⟩ := isSafe_plain b hsafe
    rw [List.singleton_append, decode_cons h37, if_neg h43]
  · split
    · rename_i hblank
      rw [List.singleton_append, decode_cons (by decide), if_pos rfl, hblank]
    · simp only [percent, List.cons_append, List.nil_append]
      rw [decode]
      simp only [hexPair_percent]

/-- **A name or a value is read back.** -/
theorem decode_encode (bs : List UInt8) : decode (encode bs) = bs := by
  induction bs with
  | nil => rfl
  | cons b bs ih =>
    rw [encode, List.flatMap_cons, decode_encodeByte, ← encode, ih]

theorem encode_separator (bs : List UInt8) : (38 : UInt8) ∉ encode bs ∧ (61 : UInt8) ∉ encode bs := by
  constructor
  · intro h
    obtain ⟨b, -, hb⟩ := List.mem_flatMap.1 h
    exact (encodeByte_separator b).1 hb
  · intro h
    obtain ⟨b, -, hb⟩ := List.mem_flatMap.1 h
    exact (encodeByte_separator b).2 hb

theorem decodePair_encodePair (p : List UInt8 × List UInt8) : decodePair (encodePair p) = p := by
  have hname : ∀ b ∈ encode p.1, (b != 61) = true := by
    intro b hb
    refine bne_iff_ne.2 ?_
    rintro rfl
    exact (encode_separator p.1).2 hb
  have htake : (61 :: encode p.2).takeWhile (· != 61) = [] :=
    List.takeWhile_cons_of_neg (by decide)
  have hdrop : (61 :: encode p.2).dropWhile (· != 61) = 61 :: encode p.2 :=
    List.dropWhile_cons_of_neg (by decide)
  unfold decodePair encodePair
  rw [List.takeWhile_append_of_pos hname, List.dropWhile_append_of_pos hname, htake, hdrop,
    List.append_nil, List.drop_one, List.tail_cons, decode_encode, decode_encode]

/-- **The pairs are read back.** -/
theorem parse_serialize (ps : List (List UInt8 × List UInt8)) : parse (serialize ps) = ps := by
  cases ps with
  | nil => rfl
  | cons p ps =>
    have hseparator : ∀ l ∈ (p :: ps).map encodePair, (38 : UInt8) ∉ l := by
      intro l hl hmem
      obtain ⟨q, -, rfl⟩ := List.mem_map.1 hl
      rcases List.mem_append.1 hmem with hmem | hmem
      · exact (encode_separator q.1).1 hmem
      · rcases List.mem_cons.1 hmem with heq | hmem
        · exact absurd heq (by decide)
        · exact (encode_separator q.2).1 hmem
    have hne : ∀ l ∈ (p :: ps).map encodePair, decide (l ≠ []) = true := by
      intro l hl
      obtain ⟨q, -, rfl⟩ := List.mem_map.1 hl
      simp [encodePair]
    unfold parse serialize
    rw [List.splitOn_intercalate 38 hseparator (by simp), List.filter_eq_self.2 hne,
      List.map_map]
    exact (List.map_congr_left fun q _ => decodePair_encodePair q).trans (List.map_id _)

/-! ## Other escapes -/

/-- Each byte stands for itself, where it has no other meaning, or is written as `%XX`. -/
def Escapes (enc : UInt8 → List UInt8) : Prop :=
  ∀ b, enc b = percent b ∨ enc b = [b] ∧ b ≠ 37 ∧ b ≠ 38 ∧ b ≠ 43 ∧ b ≠ 61

theorem percent_plain : ∀ b : UInt8, (38 : UInt8) ∉ percent b ∧ (61 : UInt8) ∉ percent b :=
  forall_byte (by decide +kernel)

section
variable {enc : UInt8 → List UInt8}

theorem Escapes.decode_append (h : Escapes enc) (b : UInt8) (r : List UInt8) :
    decode (enc b ++ r) = b :: decode r := by
  rcases h b with hb | ⟨hb, h37, -, h43, -⟩
  · rw [hb, percent, List.cons_append, List.cons_append, List.cons_append, List.nil_append, decode]
    simp only [hexPair_percent]
  · rw [hb, List.singleton_append, decode_cons h37, if_neg h43]

theorem Escapes.decode_flatMap (h : Escapes enc) (bs : List UInt8) :
    decode (bs.flatMap enc) = bs := by
  induction bs with
  | nil => rfl
  | cons b bs ih => rw [List.flatMap_cons, h.decode_append, ih]

theorem Escapes.plain (h : Escapes enc) {bs : List UInt8} {c : UInt8} (hc : c ∈ bs.flatMap enc) :
    c ≠ 38 ∧ c ≠ 61 := by
  obtain ⟨b, -, hb⟩ := List.mem_flatMap.1 hc
  rcases h b with hp | ⟨hp, -, h38, -, h61⟩
  · rw [hp] at hb
    constructor
    · rintro rfl
      exact (percent_plain b).1 hb
    · rintro rfl
      exact (percent_plain b).2 hb
  · rw [hp, List.mem_singleton] at hb
    exact ⟨hb ▸ h38, hb ▸ h61⟩

/-- **A pair is read back**, with the name as it is. -/
theorem Escapes.parse_pair (h : Escapes enc) {name : List UInt8} (hname : decode name = name)
    (hplain : ∀ c ∈ name, c ≠ 38 ∧ c ≠ 61) (value : List UInt8) :
    parse (name ++ 61 :: value.flatMap enc) = [(name, value)] := by
  have hmark : ∀ c ∈ name, (c != 61) = true := fun c hc => bne_iff_ne.2 (hplain c hc).2
  have hseparator : (38 : UInt8) ∉ name ++ 61 :: value.flatMap enc := by
    intro hmem
    rcases List.mem_append.1 hmem with hmem | hmem
    · exact (hplain _ hmem).1 rfl
    · rcases List.mem_cons.1 hmem with heq | hmem
      · exact absurd heq (by decide)
      · exact (h.plain hmem).1 rfl
  have hsplit : (name ++ 61 :: value.flatMap enc).splitOn 38 = [name ++ 61 :: value.flatMap enc] := by
    have hone : ([38].intercalate [name ++ 61 :: value.flatMap enc]).splitOn 38 = _ :=
      List.splitOn_intercalate 38 (by simpa using hseparator) (by simp)
    rwa [List.intercalate_singleton] at hone
  have htake : (61 :: value.flatMap enc).takeWhile (· != 61) = [] :=
    List.takeWhile_cons_of_neg (by simp)
  have hdrop : (61 :: value.flatMap enc).dropWhile (· != 61) = 61 :: value.flatMap enc :=
    List.dropWhile_cons_of_neg (by simp)
  have hpair : decodePair (name ++ 61 :: value.flatMap enc) = (name, value) := by
    unfold decodePair
    rw [List.takeWhile_append_of_pos hmark, List.dropWhile_append_of_pos hmark, htake, hdrop,
      List.append_nil, List.drop_one, List.tail_cons, hname, h.decode_flatMap]
  rw [parse, hsplit, List.filter_cons_of_pos (by simp), List.filter_nil, List.map_singleton, hpair]

end

end SealedSky.UrlEncoded
