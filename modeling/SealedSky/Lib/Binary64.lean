import Mathlib.Data.Int.Log
import Mathlib.Data.Rat.Floor
import Mathlib.Data.Nat.Prime.Basic
import Mathlib.Tactic.Linarith
import Mathlib.Tactic.FieldSimp
import Mathlib.Tactic.Ring
import Mathlib.Tactic.NormNum
import Mathlib.Tactic.Positivity

/-!
# Double-precision numbers by their values

A finite double is a rational that rounding to double precision leaves alone. `round?` rounds to the
nearest, ties to even, and is `none` where the result is too large; the sign of zero is not kept.

* `isDouble_of_round` — what `round?` returns is `m · 2 ^ e` with 53 bits of `m`.
* `round_of_isDouble` — and such a value is rounded to itself.
* `round_bounds` — rounding does not pass a power of two.
-/
namespace SealedSky.Binary64

/-- The nearest integer, the even one of two. -/
def roundEven (x : ℚ) : ℤ :=
  if x - ⌊x⌋ < 1 / 2 then ⌊x⌋
  else if 1 / 2 < x - ⌊x⌋ then ⌊x⌋ + 1
  else if ⌊x⌋ % 2 = 0 then ⌊x⌋
  else ⌊x⌋ + 1

/-- The exponent of the last place of a double near `x`; subnormal numbers share the lowest. -/
def lastPlace (x : ℚ) : ℤ := max (-1074) (Int.log 2 |x| - 52)

def round? (x : ℚ) : Option ℚ :=
  let y := (roundEven (x / 2 ^ lastPlace x) : ℚ) * 2 ^ lastPlace x
  if |y| < 2 ^ 1024 then some y else none

/-- A finite double. -/
@[ext] structure Double where
  val : ℚ
  rep : round? val = some val
  deriving DecidableEq

/-- The values with 53 significant bits and an exponent in range. -/
def IsDouble (y : ℚ) : Prop :=
  ∃ m e : ℤ, |m| < 2 ^ 53 ∧ -1074 ≤ e ∧ y = m * 2 ^ e ∧ |y| < 2 ^ 1024

theorem roundEven_intCast (n : ℤ) : roundEven n = n := by
  unfold roundEven
  rw [Int.floor_intCast, sub_self, if_pos (by norm_num)]

/-- Rounding does not pass an integer. -/
theorem roundEven_bounds {x : ℚ} {a b : ℤ} (ha : (a : ℚ) ≤ x) (hb : x ≤ b) :
    a ≤ roundEven x ∧ roundEven x ≤ b := by
  have hfa : a ≤ ⌊x⌋ := Int.le_floor.2 ha
  have hfb : ⌊x⌋ ≤ b := Int.floor_le_iff.2 (by linarith)
  by_cases heq : x = b
  · rw [heq, roundEven_intCast]
    rw [heq, Int.floor_intCast] at hfa
    exact ⟨hfa, le_refl b⟩
  · have hlt : ⌊x⌋ < b := Int.floor_lt.2 (lt_of_le_of_ne hb heq)
    unfold roundEven
    split_ifs <;> omega

theorem two_zpow_pos (e : ℤ) : (0 : ℚ) < 2 ^ e := zpow_pos (by norm_num) e

/-- In its own last places a number has at most 53 bits. -/
theorem abs_div_lastPlace (x : ℚ) : |x / 2 ^ lastPlace x| < 2 ^ (53 : ℕ) := by
  have hpos := two_zpow_pos (lastPlace x)
  have hlog := Int.lt_zpow_succ_log_self (b := 2) (by decide) |x|
  push_cast at hlog
  have hle : Int.log 2 |x| + 1 ≤ 53 + lastPlace x := by
    unfold lastPlace
    omega
  rw [abs_div, abs_of_pos hpos, div_lt_iff₀ hpos]
  calc |x| < 2 ^ (Int.log 2 |x| + 1) := hlog
    _ ≤ 2 ^ (53 + lastPlace x) := zpow_le_zpow_right₀ (by norm_num) hle
    _ = 2 ^ (53 : ℕ) * 2 ^ lastPlace x := by
      rw [zpow_add₀ (by norm_num)]
      norm_num

theorem isDouble_of_round {x y : ℚ} (h : round? x = some y) : IsDouble y := by
  unfold round? at h
  simp only at h
  split at h
  · rename_i hlt
    cases h
    have hx := abs_lt.1 (abs_div_lastPlace x)
    have hb := roundEven_bounds (a := -2 ^ 53) (b := 2 ^ 53) (x := x / 2 ^ lastPlace x)
      (by push_cast; linarith [hx.1]) (by push_cast; linarith [hx.2])
    have hlow : -1074 ≤ lastPlace x := le_max_left _ _
    generalize roundEven (x / 2 ^ lastPlace x) = m at hlt hb ⊢
    by_cases hm : |m| < 2 ^ 53
    · exact ⟨m, lastPlace x, hm, hlow, rfl, hlt⟩
    · -- the mantissa was rounded up to a power of two
      have habs : |m| = 2 ^ 53 := le_antisymm (abs_le.2 hb) (not_lt.1 hm)
      obtain ⟨m', hm', hlt'⟩ : ∃ m' : ℤ, m = m' * 2 ∧ |m'| < 2 ^ 53 := by
        rcases abs_eq (by norm_num) |>.1 habs with h | h
        · exact ⟨2 ^ 52, by rw [h]; norm_num, by norm_num⟩
        · exact ⟨-2 ^ 52, by rw [h]; norm_num, by norm_num⟩
      refine ⟨m', lastPlace x + 1, hlt', by omega, ?_, hlt⟩
      rw [hm', zpow_add₀ (by norm_num), zpow_one]
      push_cast
      ring
  · cases h

theorem round_of_isDouble {y : ℚ} (h : IsDouble y) : round? y = some y := by
  obtain ⟨m, e, hm, he, rfl, hlt⟩ := h
  -- the last place of the value is at or below its own exponent
  have hplace : m = 0 ∨ lastPlace ((m : ℚ) * 2 ^ e) ≤ e := by
    by_cases hm0 : m = 0
    · exact Or.inl hm0
    right
    have hpos : 0 < |(m : ℚ) * 2 ^ e| :=
      abs_pos.2 (mul_ne_zero (by exact_mod_cast hm0) (two_zpow_pos e).ne')
    have hlog : Int.log 2 |(m : ℚ) * 2 ^ e| < 53 + e := by
      rw [← Int.lt_zpow_iff_log_lt (by decide) hpos]
      push_cast
      rw [abs_mul, abs_of_pos (two_zpow_pos e), zpow_add₀ (by norm_num)]
      have hmq : |(m : ℚ)| < 2 ^ (53 : ℤ) := by
        have h := (Int.cast_lt (R := ℚ)).2 hm
        rw [Int.cast_abs] at h
        norm_num at h ⊢
        exact h
      exact mul_lt_mul_of_pos_right hmq (two_zpow_pos e)
    unfold lastPlace
    omega
  have hint : roundEven ((m : ℚ) * 2 ^ e / 2 ^ lastPlace ((m : ℚ) * 2 ^ e)) *
      2 ^ lastPlace ((m : ℚ) * 2 ^ e) = (m : ℚ) * 2 ^ e := by
    rcases hplace with hm0 | hplace
    · subst hm0
      have h0 := roundEven_intCast 0
      push_cast at h0
      simp [h0]
    · generalize lastPlace ((m : ℚ) * 2 ^ e) = p at hplace ⊢
      obtain ⟨k, rfl⟩ : ∃ k : ℕ, e = p + k := ⟨(e - p).toNat, by omega⟩
      have hdiv : (m : ℚ) * 2 ^ (p + (k : ℤ)) / 2 ^ p = ((m * 2 ^ k : ℤ) : ℚ) := by
        rw [zpow_add₀ (by norm_num), zpow_natCast]
        have := (two_zpow_pos p).ne'
        push_cast
        field_simp
      rw [hdiv, roundEven_intCast, zpow_add₀ (by norm_num), zpow_natCast]
      push_cast
      ring
  unfold round?
  simp only
  rw [hint, if_pos hlt]

/-- **Rounding twice is rounding once.** -/
theorem round_idem {x y : ℚ} (h : round? x = some y) : round? y = some y :=
  round_of_isDouble (isDouble_of_round h)

/-- Powers of two above a number are whole in its last places. -/
theorem two_pow_eq_lastPlace {x : ℚ} {k : ℕ} (h : |x| ≤ 2 ^ k) :
    ∃ j : ℕ, (2 : ℚ) ^ k = ((2 ^ j : ℤ) : ℚ) * 2 ^ lastPlace x := by
  have hlast : lastPlace x ≤ k := by
    have hlog : Int.log 2 |x| ≤ k := by
      rcases (abs_nonneg x).eq_or_lt with h0 | h0
      · rw [← h0, Int.log_zero_right]
        omega
      · exact (Int.log_mono_right h0 h).trans (by
          have := Int.log_zpow (R := ℚ) (b := 2) (by decide) (k : ℤ)
          push_cast at this
          rw [zpow_natCast] at this
          rw [this])
    unfold lastPlace
    omega
  obtain ⟨j, hj⟩ : ∃ j : ℕ, (k : ℤ) = j + lastPlace x := ⟨(k - lastPlace x).toNat, by omega⟩
  refine ⟨j, ?_⟩
  rw [← zpow_natCast, hj, zpow_add₀ (by norm_num)]
  push_cast
  rw [zpow_natCast]

/-- Rounding does not pass a power of two from below. -/
theorem round_bounds {x : ℚ} {k : ℕ} (hk : k < 1024) (h0 : 0 ≤ x) (h : x ≤ 2 ^ k) :
    ∃ y, round? x = some y ∧ 0 ≤ y ∧ y ≤ 2 ^ k := by
  have hpos := two_zpow_pos (lastPlace x)
  obtain ⟨j, htop⟩ := two_pow_eq_lastPlace (x := x) (by rwa [abs_of_nonneg h0])
  obtain ⟨hlo, hhi⟩ := roundEven_bounds (x := x / 2 ^ lastPlace x) (a := 0) (b := 2 ^ j)
    (by push_cast; positivity) (by rwa [div_le_iff₀ hpos, ← htop])
  have hlo' : (0 : ℚ) ≤ (roundEven (x / 2 ^ lastPlace x) : ℚ) * 2 ^ lastPlace x :=
    mul_nonneg (by exact_mod_cast hlo) hpos.le
  have hhi' : (roundEven (x / 2 ^ lastPlace x) : ℚ) * 2 ^ lastPlace x ≤ 2 ^ k := by
    rw [htop]
    exact mul_le_mul_of_nonneg_right (by exact_mod_cast hhi) hpos.le
  refine ⟨_, if_pos ?_, hlo', hhi'⟩
  rw [abs_of_nonneg hlo']
  exact hhi'.trans_lt (pow_lt_pow_right₀ (by norm_num) hk)

/-- In its own last places a number is at least 1, unless it is smaller than all doubles. -/
theorem two_zpow_lastPlace_le {x : ℚ} (h : (2 : ℚ) ^ (-1074 : ℤ) ≤ |x|) :
    (2 : ℚ) ^ lastPlace x ≤ |x| := by
  have hpos : 0 < |x| := (two_zpow_pos _).trans_le h
  have hlog : (2 : ℚ) ^ Int.log 2 |x| ≤ |x| := by
    exact_mod_cast Int.zpow_log_le_self (b := 2) (by decide) hpos
  unfold lastPlace
  rcases max_choice (-1074) (Int.log 2 |x| - 52) with hmax | hmax
  · rwa [hmax]
  · rw [hmax]
    exact (zpow_le_zpow_right₀ (by norm_num) (by omega)).trans hlog

/-- What is rounded stays below zero. -/
theorem round_bounds_neg {x : ℚ} {k : ℕ} (hk : k < 1024) (h0 : x ≤ -2 ^ (-1074 : ℤ))
    (h : -2 ^ k ≤ x) : ∃ y, round? x = some y ∧ y < 0 ∧ -2 ^ k ≤ y := by
  have hpos := two_zpow_pos (lastPlace x)
  have habs : |x| = -x := abs_of_neg (h0.trans_lt (neg_neg_of_pos (two_zpow_pos _)))
  have hunit : (2 : ℚ) ^ lastPlace x ≤ -x := by
    rw [← habs]
    exact two_zpow_lastPlace_le (by linarith)
  obtain ⟨j, htop⟩ := two_pow_eq_lastPlace (x := x) (k := k) (by linarith)
  obtain ⟨hlo, hhi⟩ := roundEven_bounds (x := x / 2 ^ lastPlace x) (a := -2 ^ j) (b := -1)
    (by rw [le_div_iff₀ hpos]; push_cast at htop ⊢; linarith)
    (by rw [div_le_iff₀ hpos]; push_cast; linarith)
  have hneg : (roundEven (x / 2 ^ lastPlace x) : ℚ) * 2 ^ lastPlace x < 0 :=
    mul_neg_of_neg_of_pos (by exact_mod_cast (by omega : roundEven (x / 2 ^ lastPlace x) < 0)) hpos
  have hlo' : -2 ^ k ≤ (roundEven (x / 2 ^ lastPlace x) : ℚ) * 2 ^ lastPlace x := by
    have hle := mul_le_mul_of_nonneg_right ((Int.cast_le (R := ℚ)).2 hlo) hpos.le
    push_cast at hle htop
    linarith
  refine ⟨_, if_pos ?_, hneg, hlo'⟩
  rw [abs_of_neg hneg]
  exact (by linarith : -((roundEven (x / 2 ^ lastPlace x) : ℚ) * 2 ^ lastPlace x) ≤ 2 ^ k).trans_lt
    (pow_lt_pow_right₀ (by norm_num) hk)

/-- Nor does it from above. -/
theorem two_pow_le_round {x y : ℚ} {k : ℕ} (hx : 2 ^ k ≤ x) (h : round? x = some y) : 2 ^ k ≤ y := by
  have hpos := two_zpow_pos (lastPlace x)
  have hone : (1 : ℚ) ≤ 2 ^ k := one_le_pow₀ (by norm_num)
  have habs : |x| = x := abs_of_nonneg (by linarith)
  have hunit : (2 : ℚ) ^ lastPlace x ≤ x := by
    have hle : (2 : ℚ) ^ (-1074 : ℤ) ≤ |x| := by
      rw [habs]
      exact (zpow_le_one_of_nonpos₀ (by norm_num) (by decide)).trans (hone.trans hx)
    exact (two_zpow_lastPlace_le hle).trans habs.le
  have hy : y = (roundEven (x / 2 ^ lastPlace x) : ℚ) * 2 ^ lastPlace x := by
    unfold round? at h
    simp only at h
    split at h
    · exact (Option.some.inj h).symm
    · cases h
  have hbound : ∀ j : ℤ, (j : ℚ) * 2 ^ lastPlace x ≤ x → (j : ℚ) * 2 ^ lastPlace x ≤ y := by
    intro j hj
    obtain ⟨hlo, -⟩ := roundEven_bounds (x := x / 2 ^ lastPlace x) (a := j) (b := ⌈x / 2 ^ lastPlace x⌉)
      ((le_div_iff₀ hpos).2 hj) (Int.le_ceil _)
    rw [hy]
    exact mul_le_mul_of_nonneg_right (by exact_mod_cast hlo) hpos.le
  rcases le_or_gt (lastPlace x) k with hle | hlt
  · obtain ⟨j, hj⟩ : ∃ j : ℕ, (k : ℤ) = j + lastPlace x := ⟨(k - lastPlace x).toNat, by omega⟩
    have hpow : (2 : ℚ) ^ k = ((2 ^ j : ℤ) : ℚ) * 2 ^ lastPlace x := by
      rw [← zpow_natCast, hj, zpow_add₀ (by norm_num)]
      push_cast
      rw [zpow_natCast]
    rw [hpow] at hx ⊢
    exact hbound _ hx
  · have hlast := hbound 1 (by push_cast; linarith)
    push_cast at hlast
    rw [one_mul] at hlast
    refine le_trans ?_ hlast
    rw [← zpow_natCast]
    exact zpow_le_zpow_right₀ (by norm_num) hlt.le

/-- A whole number of at most 53 bits is a double. -/
theorem round_intCast {z : ℤ} (h : |z| < 2 ^ 53) : round? (z : ℚ) = some ↑z := by
  refine round_of_isDouble ⟨z, 0, h, by decide, by rw [zpow_zero, mul_one], ?_⟩
  have hz : |(z : ℚ)| < 2 ^ 53 := by exact_mod_cast h
  exact hz.trans (pow_lt_pow_right₀ (by norm_num) (by decide))

/-- The whole part of a double is one. -/
theorem isDouble_floor {y : ℚ} (h : IsDouble y) : IsDouble ⌊y⌋ := by
  have hdouble := h
  obtain ⟨m, e, hm, -, hy, -⟩ := h
  by_cases he : 0 ≤ e
  · -- without a fraction it is its own whole part
    obtain ⟨k, rfl⟩ := Int.eq_ofNat_of_zero_le he
    have hint : y = ((m * 2 ^ k : ℤ) : ℚ) := by
      rw [hy]
      push_cast
      rfl
    rwa [hint, Int.floor_intCast, ← hint]
  · -- with one it is small
    have hpow : (2 : ℚ) ^ e ≤ 1 := zpow_le_one_of_nonpos₀ (by norm_num) (by omega)
    have hpos := two_zpow_pos e
    have hle : |y| ≤ |m| := by
      rw [hy, abs_mul, abs_of_pos hpos]
      push_cast
      exact mul_le_of_le_one_right (abs_nonneg _) hpow
    have hm' : |m| ≤ 2 ^ 53 - 1 := by omega
    have hbound : |y| ≤ ((2 ^ 53 - 1 : ℤ) : ℚ) := hle.trans (by exact_mod_cast hm')
    obtain ⟨hlow, hhigh⟩ := abs_le.1 hbound
    have hfloor : -(2 ^ 53 - 1) ≤ ⌊y⌋ := Int.le_floor.2 (by exact_mod_cast hlow)
    have hfloor' : ⌊y⌋ ≤ 2 ^ 53 - 1 := by
      have := (Int.floor_le y).trans hhigh
      exact_mod_cast this
    refine isDouble_of_round (round_intCast ?_)
    rw [abs_lt]
    constructor <;> omega

theorem isDouble_neg {y : ℚ} (h : IsDouble y) : IsDouble (-y) := by
  obtain ⟨m, e, hm, he, rfl, hlt⟩ := h
  refine ⟨-m, e, by rwa [abs_neg], he, by push_cast; ring, by rwa [abs_neg]⟩

def Double.neg (x : Double) : Double :=
  ⟨-x.val, round_of_isDouble (isDouble_neg (isDouble_of_round x.rep))⟩

/-- **The decimals of a double end.** -/
theorem exists_int_mul_ten_pow {x : ℚ} (h : IsDouble x) :
    ∃ z : ℤ, x * 10 ^ Nat.log 2 x.den = z := by
  obtain ⟨m, e, -, -, hx, -⟩ := h
  -- the denominator is a power of two
  have hdvd : x.den ∣ 2 ^ (-e).toNat := by
    by_cases he : 0 ≤ e
    · obtain ⟨k, rfl⟩ := Int.eq_ofNat_of_zero_le he
      have hint : x = ((m * 2 ^ k : ℤ) : ℚ) := by
        rw [hx]
        push_cast
        rfl
      rw [hint, Rat.den_intCast]
      exact one_dvd _
    · obtain ⟨k, hk⟩ : ∃ k : ℕ, e = -(k : ℤ) := ⟨(-e).toNat, by omega⟩
      have hdiv : x = (m : ℚ) / ((2 ^ k : ℤ) : ℚ) := by
        rw [hx, hk, zpow_neg, zpow_natCast]
        push_cast
        rw [div_eq_mul_inv]
      have hd := Rat.den_dvd m (2 ^ k)
      rw [← Rat.intCast_div_eq_divInt, ← hdiv] at hd
      have hk' : (-e).toNat = k := by omega
      rw [hk']
      exact_mod_cast hd
  obtain ⟨i, -, hi⟩ := (Nat.dvd_prime_pow Nat.prime_two).1 hdvd
  have hnum : x * ((2 ^ i : ℕ) : ℚ) = x.num := by
    rw [← hi]
    exact Rat.mul_den_eq_num x
  refine ⟨x.num * 5 ^ i, ?_⟩
  rw [hi, Nat.log_pow (by decide)]
  push_cast at hnum ⊢
  rw [← hnum, mul_assoc, ← mul_pow]
  norm_num

end SealedSky.Binary64
