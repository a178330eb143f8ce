import SealedSky.Js.Codec

/-!
# Whole numbers without a bound (`BigInt`)

`BigInt(s)` reads decimal digits behind a sign, or digits behind `0x`, `0o` or `0b`, with white space
around them, and takes an empty text for zero. `String` prints decimal digits without a leading zero.

* `bigInt_decimal_iff` — a text that `BigInt` reads as a number is the text of that number exactly when
  it is decimal digits without a leading zero.
* `toString_safe` — `String` prints a safe integer as `BigInt` does.
-/
namespace SealedSky.Js

open Binary64

/-- `StringToBigInt`, `none` where `BigInt` throws. -/
def bigInt (s : JsString) : Option ℤ :=
  let t := trim s
  if t = [] then some 0
  else
    match radixPrefix t with
    | some (b, r) => (radixInteger b r).map fun n => (n : ℤ)
    | none =>
      let (neg, u) := signed t
      if isDigits u then
        some (if neg then -(natOf (scanDigits u).1 : ℤ) else natOf (scanDigits u).1)
      else none

/-- The digits of a number, zero too. -/
def decimalDigits (n : ℕ) : List ℕ := if n = 0 then [0] else digitsOf n

/-- `String(n)`. -/
def decimal (n : ℕ) : JsString := digitUnits (decimalDigits n)

/-- Decimal digits without a leading zero. -/
def isDecimal (s : JsString) : Bool := isDigits s && (s == [48] || s.head? != some 48)

/-- Digits without a leading zero. -/
structure Canonical (ds : List ℕ) : Prop where
  nonempty : ds ≠ []
  lt : ∀ d ∈ ds, d < 10
  head : ds = [0] ∨ ds.head? ≠ some 0

theorem canonical_decimalDigits (n : ℕ) : Canonical (decimalDigits n) := by
  unfold decimalDigits
  split
  · exact ⟨by decide, by decide, Or.inl rfl⟩
  · rename_i hn
    exact ⟨digitsOf_ne_nil hn, digitsOf_lt n, Or.inr (digitsOf_head n)⟩

theorem natOf_decimalDigits (n : ℕ) : natOf (decimalDigits n) = n := by
  unfold decimalDigits
  split
  · rename_i hn
    rw [hn]
    rfl
  · exact natOf_digitsOf n

/-- A number has no other digits without a leading zero. -/
theorem Canonical.eq_decimalDigits {ds : List ℕ} (h : Canonical ds) :
    ds = decimalDigits (natOf ds) := by
  rcases h.head with rfl | hhead
  · rfl
  · have hlast : ∀ hne : ds.reverse ≠ [], ds.reverse.getLast hne ≠ 0 := by
      intro hne hzero
      refine hhead ?_
      rw [← List.getLast?_reverse, List.getLast?_eq_some_getLast hne, hzero]
    have hdigits : Nat.digits 10 (natOf ds) = ds.reverse :=
      Nat.digits_ofDigits 10 (by decide) ds.reverse
        (fun d hd => h.lt d (List.mem_reverse.1 hd)) hlast
    have hne : natOf ds ≠ 0 := by
      intro hzero
      rw [hzero, Nat.digits_zero] at hdigits
      exact h.nonempty (List.reverse_eq_nil_iff.1 hdigits.symm)
    rw [decimalDigits, if_neg hne, digitsOf, hdigits, List.reverse_reverse]

/-! ## Reading decimal digits -/

theorem bigInt_digitUnits {ds : List ℕ} (hne : ds ≠ []) (hds : ∀ d ∈ ds, d < 10) :
    bigInt (digitUnits ds) = some (natOf ds : ℤ) := by
  have hplain : ∀ u ∈ digitUnits ds, isSpace u = false ∧ u ∉ js "xXoObB+-" := by
    intro u hu
    obtain ⟨d, hd, rfl⟩ := List.mem_map.1 hu
    exact ⟨(digitUnit_plain d (hds d hd)).1, (digitUnit_plain d (hds d hd)).2.2.1⟩
  have hprefix : radixPrefix (digitUnits ds) = none := by
    have hall : ∀ u ∈ digitUnits ds, u ∉ js "xXoObB+-" := fun u hu => (hplain u hu).2
    generalize digitUnits ds = s at hall
    match s, hall with
    | [], _ => rfl
    | [_], _ => rfl
    | z :: x :: r, hall =>
      have hx := hall x (by simp)
      have hne : x ≠ 120 ∧ x ≠ 88 ∧ x ≠ 111 ∧ x ≠ 79 ∧ x ≠ 98 ∧ x ≠ 66 := by
        refine ⟨?_, ?_, ?_, ?_, ?_, ?_⟩ <;>
          (rintro rfl
           exact hx (by decide))
      unfold radixPrefix
      simp [hne]
  have hnil : digitUnits ds ≠ [] := fun h => hne (List.map_eq_nil_iff.1 h)
  unfold bigInt
  simp only [trim_of_noSpace fun u hu => (hplain u hu).1, hprefix, signed_digitUnits hne hds,
    if_neg hnil,
    isDigits_iff.2 ⟨ds, hne, hds, rfl⟩, scanDigits_all hds]
  rfl

theorem digitUnits_injective : ∀ {ds es : List ℕ}, (∀ d ∈ ds, d < 10) → (∀ e ∈ es, e < 10) →
    digitUnits ds = digitUnits es → ds = es := by
  intro ds es hds hes h
  have hread := congrArg (fun s => (scanDigits s).1) h
  simp only [scanDigits_all hds, scanDigits_all hes] at hread
  exact hread

/-- Decimal digits without a leading zero are the text of a number. -/
theorem isDecimal_iff {s : JsString} : isDecimal s = true ↔ ∃ n, s = decimal n := by
  have hhead : ∀ ds : List ℕ, ds ≠ [] → (∀ d ∈ ds, d < 10) →
      ((digitUnits ds == [48] || (digitUnits ds).head? != some 48) = true ↔ Canonical ds) := by
    intro ds hne hds
    have hone : ∀ e ∈ [0], e < 10 := by decide
    have hzero : digitUnits ds = [48] ↔ ds = [0] :=
      ⟨digitUnits_injective hds hone, fun h => h ▸ rfl⟩
    have hfirst : (digitUnits ds).head? = some 48 ↔ ds.head? = some 0 := by
      obtain ⟨d, es, rfl⟩ := List.exists_cons_of_ne_nil hne
      have hd := (digitUnit_plain d (hds d List.mem_cons_self)).2.1
      simpa [digitUnits] using hd
    rw [Bool.or_eq_true, beq_iff_eq, bne_iff_ne, hzero, ne_eq, hfirst]
    exact ⟨fun h => ⟨hne, hds, h⟩, Canonical.head⟩
  rw [isDecimal, Bool.and_eq_true]
  constructor
  · rintro ⟨hdigits, hcanonical⟩
    obtain ⟨ds, hne, hds, rfl⟩ := isDigits_iff.1 hdigits
    exact ⟨natOf ds, congrArg digitUnits ((hhead ds hne hds).1 hcanonical).eq_decimalDigits⟩
  · rintro ⟨n, rfl⟩
    have hcanonical := canonical_decimalDigits n
    exact ⟨isDigits_iff.2 ⟨_, hcanonical.nonempty, hcanonical.lt, rfl⟩,
      (hhead _ hcanonical.nonempty hcanonical.lt).2 hcanonical⟩

theorem bigInt_decimal (n : ℕ) : bigInt (decimal n) = some (n : ℤ) := by
  have hcanonical := canonical_decimalDigits n
  rw [decimal, bigInt_digitUnits hcanonical.nonempty hcanonical.lt, natOf_decimalDigits]

theorem ascii_decimal (n : ℕ) : ∀ u ∈ decimal n, u.toNat < 0x80 := by
  intro u hu
  obtain ⟨d, hd, rfl⟩ := List.mem_map.1 hu
  exact (digitUnit_plain d ((canonical_decimalDigits n).lt d hd)).2.2.2

/-- **A text that `BigInt` reads as a number has the bytes of its text** exactly when it is decimal
digits without a leading zero. -/
theorem bigInt_decimal_iff {s : JsString} {n : ℕ} (h : bigInt s = some (n : ℤ)) :
    utf8 s = utf8 (decimal n) ↔ isDecimal s = true := by
  constructor
  · intro heq
    have hmark : (0xFFFD : UInt16) ∉ decimal n := fun hmem =>
      absurd (ascii_decimal n _ hmem) (by decide)
    exact isDecimal_iff.2 ⟨n, eq_of_utf8 (wellFormed_ascii (ascii_decimal n)) hmark heq⟩
  · intro hdecimal
    obtain ⟨m, rfl⟩ := isDecimal_iff.1 hdecimal
    rw [bigInt_decimal, Option.some.injEq, Int.natCast_inj] at h
    rw [h]

/-! ## Units of a numeral -/

theorem radixInteger_of_bar {b : ℕ} {r : JsString} (hb : b ∈ [16, 8, 2]) (hr : 124 ∈ r) :
    radixInteger b r = none := by
  have hbar : ∀ b ∈ [16, 8, 2], radixDigit b 124 = none := by decide
  have hnone : r.mapM (radixDigit b) = none := by
    induction r with
    | nil => cases hr
    | cons u r ih =>
      rw [List.mapM_cons]
      rcases List.mem_cons.1 hr with rfl | hr
      · rw [hbar b hb]
        rfl
      · rw [ih hr]
        cases radixDigit b u <;> rfl
  rw [radixInteger, if_neg (List.ne_nil_of_mem hr), hnone]
  rfl

theorem radixPrefix_bar {t r : JsString} {b : ℕ} (h : radixPrefix t = some (b, r)) (hbar : 124 ∈ t) :
    b ∈ [16, 8, 2] ∧ 124 ∈ r := by
  match t, h, hbar with
  | z :: x :: r', h, hbar =>
    simp only [radixPrefix] at h
    have hrest : z = 48 → (x = 120 ∨ x = 88) ∨ (x = 111 ∨ x = 79) ∨ (x = 98 ∨ x = 66) →
        124 ∈ r' := by
      rintro rfl hx
      rcases List.mem_cons.1 hbar with hbar | hbar
      · exact absurd hbar (by decide)
      · refine (List.mem_cons.1 hbar).resolve_left fun heq => ?_
        rw [← heq] at hx
        exact absurd hx (by decide)
    split_ifs at h with hz hx hx hx
    · cases h
      exact ⟨by decide, hrest (not_not.1 hz) (Or.inl hx)⟩
    · cases h
      exact ⟨by decide, hrest (not_not.1 hz) (Or.inr (Or.inl hx))⟩
    · cases h
      exact ⟨by decide, hrest (not_not.1 hz) (Or.inr (Or.inr hx))⟩

theorem signed_bar {t : JsString} (hbar : 124 ∈ t) : 124 ∈ (signed t).2 := by
  cases t with
  | nil => cases hbar
  | cons u r =>
    simp only [signed]
    split_ifs with h1 h2
    · exact (List.mem_cons.1 hbar).resolve_left fun heq => absurd (heq.trans h1) (by decide)
    · exact (List.mem_cons.1 hbar).resolve_left fun heq => absurd (heq.trans h2) (by decide)
    · exact hbar

/-- A text that `BigInt` reads has no `|` in it. -/
theorem bar_notMem_of_bigInt {s : JsString} {z : ℤ} (h : bigInt s = some z) : 124 ∉ s := by
  intro hbar
  have hmem : 124 ∈ trim s := mem_trim hbar (by decide)
  unfold bigInt at h
  simp only [if_neg (List.ne_nil_of_mem hmem)] at h
  split at h
  · rename_i b r hprefix
    obtain ⟨hb, hr⟩ := radixPrefix_bar hprefix hmem
    rw [radixInteger_of_bar hb hr] at h
    cases h
  · split at h
    · rename_i hdigits
      rw [isDigits, Bool.and_eq_true] at hdigits
      exact absurd (List.all_eq_true.1 hdigits.2 124 (signed_bar hmem)) (by decide)
    · cases h

/-! ## Numbers -/

theorem round_of_ofRat {v : ℚ} {x : Double} (h : ofRat v = .fin x) : round? v = some x.val := by
  unfold ofRat at h
  split at h
  · rename_i y hy
    cases h
    exact hy
  · cases h

/-- **A safe integer is printed as `BigInt` would print it.** -/
theorem toString_safe {x : Double} {m : ℕ} (hx : x.val = m) (hm : m < 2 ^ 53) :
    toString (.fin x) = decimal m := by
  obtain ⟨ds, hne, hds, hhead, htext, hvalue⟩ := toString_whole hx (by omega)
  have hround : round? ((natOf ds : ℤ) : ℚ) = some (m : ℚ) := by
    rw [Int.cast_natCast, round_of_ofRat hvalue, hx]
  have hsmall : natOf ds < 2 ^ 53 := by
    by_contra hge
    have hle : (2 : ℚ) ^ 53 ≤ ((natOf ds : ℤ) : ℚ) := by exact_mod_cast Nat.not_lt.1 hge
    have hle' := two_pow_le_round hle hround
    exact absurd (by exact_mod_cast hle' : 2 ^ 53 ≤ m) (Nat.not_le.2 hm)
  have hexact : round? ((natOf ds : ℤ) : ℚ) = some ((natOf ds : ℤ) : ℚ) := round_intCast (by
    rw [abs_of_nonneg (Int.natCast_nonneg _)]
    exact_mod_cast hsmall)
  have heq : natOf ds = m := by
    rw [hround, Option.some.injEq] at hexact
    exact_mod_cast hexact.symm
  rw [htext, decimal, ← heq]
  exact congrArg digitUnits (Canonical.eq_decimalDigits ⟨hne, hds, hhead⟩)

end SealedSky.Js
