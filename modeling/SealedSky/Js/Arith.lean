import SealedSky.Js.JsonRoundtrip

/-!
# Arithmetic and order of JavaScript numbers

Sums, quotients and the whole numbers next to a number are rounded to the nearest double. Comparisons
with `NaN` are false both ways. `secondsOf` is `Math.floor(Date.now() / 1000)`.

* `lt_eq_false_iff` — two numbers that are not `NaN` are in order one way or the other.
* `secondsOf_whole` — the seconds of a clock are a whole number, negative before 1970
  (`secondsOf_before`).
-/
namespace SealedSky.Js

open Binary64

namespace JsNum

def add : JsNum → JsNum → JsNum
  | .nan, _ => .nan
  | _, .nan => .nan
  | .infinity neg, .infinity neg' => if neg = neg' then .infinity neg else .nan
  | .infinity neg, .fin _ => .infinity neg
  | .fin _, .infinity neg => .infinity neg
  | .fin x, .fin y => ofRat (x.val + y.val)

def sub (x y : JsNum) : JsNum := x.add y.neg

/-- `x / c` for a positive constant. -/
def divBy (c : ℚ) : JsNum → JsNum
  | .fin x => ofRat (x.val / c)
  | x => x

/-- `Math.floor`. -/
def floor : JsNum → JsNum
  | .fin x => ofRat ⌊x.val⌋
  | x => x

/-- `Math.ceil`. -/
def ceil : JsNum → JsNum
  | .fin x => ofRat ⌈x.val⌉
  | x => x

/-- `x < y`. -/
def lt : JsNum → JsNum → Bool
  | .nan, _ => false
  | _, .nan => false
  | .infinity neg, .infinity neg' => neg && !neg'
  | .infinity neg, .fin _ => neg
  | .fin _, .infinity neg => !neg
  | .fin x, .fin y => decide (x.val < y.val)

/-- `x <= y`. -/
def le (x y : JsNum) : Bool := x != .nan && y != .nan && !y.lt x

/-- **Numbers that are not `NaN` are in order** one way or the other. -/
theorem lt_eq_false_iff {x y : JsNum} (hx : x ≠ .nan) (hy : y ≠ .nan) :
    x.lt y = false ↔ y.le x = true := by
  simp [le, hx, hy]

end JsNum

/-- `x < v`, which converts `v` to a number, `none` where that throws. -/
def lessThan (x : JsNum) (v : JsValue) : Option Bool := v.toNumber.map x.lt

/-- `v <= x`. -/
def atMost (v : JsValue) (x : JsNum) : Option Bool := v.toNumber.map fun y => y.le x

/-- What `Date.now()` returns: milliseconds, at most 100,000,000 days away from 1970. -/
structure TimeValue where
  ms : ℤ
  bounded : |ms| ≤ 8640000000000000

/-- `Math.floor(Date.now() / 1000)`. -/
def secondsOf (now : TimeValue) : JsNum := (JsNum.divBy 1000 (ofRat now.ms)).floor

/-- **The seconds of a clock** are a whole number. -/
theorem secondsOf_whole {now : TimeValue} (h : 0 ≤ now.ms) :
    ∃ (x : Double) (m : ℕ), secondsOf now = .fin x ∧ x.val = m ∧ m < 10 ^ 20 := by
  have hle : now.ms ≤ 8640000000000000 := (le_abs_self _).trans now.bounded
  have hexact : round? (now.ms : ℚ) = some ↑now.ms := round_intCast (by
    have := now.bounded
    omega)
  have hle' : (now.ms : ℚ) ≤ 8640000000000000 := by exact_mod_cast hle
  have h0 : (0 : ℚ) ≤ now.ms := by exact_mod_cast h
  obtain ⟨y, hy, hy0, hyle⟩ := round_bounds (x := (now.ms : ℚ) / 1000) (k := 43) (by decide)
    (by positivity) (by
      rw [div_le_iff₀ (by norm_num)]
      exact hle'.trans (by norm_num))
  have hover : JsNum.divBy 1000 (ofRat now.ms) = .fin ⟨y, round_idem hy⟩ := by
    rw [ofRat_of_round (x := ⟨now.ms, hexact⟩) hexact]
    exact ofRat_of_round hy
  have hfloor0 : 0 ≤ ⌊y⌋ := Int.floor_nonneg.2 hy0
  have hfloor : ⌊y⌋ ≤ 2 ^ 43 := by
    have hfl : (⌊y⌋ : ℚ) ≤ 2 ^ 43 := (Int.floor_le y).trans hyle
    exact_mod_cast hfl
  have hround : round? (⌊y⌋ : ℚ) = some ↑⌊y⌋ := round_intCast (by
    rw [abs_of_nonneg hfloor0]
    omega)
  refine ⟨⟨⌊y⌋, hround⟩, ⌊y⌋.toNat, ?_, ?_, by omega⟩
  · rw [secondsOf, hover]
    exact ofRat_of_round hround
  · have hnat : ((⌊y⌋.toNat : ℤ) : ℚ) = ⌊y⌋ := by rw [Int.toNat_of_nonneg hfloor0]
    exact hnat.symm.trans (Int.cast_natCast _)

/-- Before 1970 they are a negative number, and whole too. -/
theorem secondsOf_negative {now : TimeValue} (h : now.ms < 0) :
    ∃ (x : Double) (m : ℕ), secondsOf now = .fin x ∧ x.val = -m ∧ 0 < m ∧ m < 10 ^ 20 := by
  have hge : -8640000000000000 ≤ now.ms := (neg_le_neg now.bounded).trans (neg_abs_le _)
  have hexact : round? (now.ms : ℚ) = some ↑now.ms := round_intCast (by
    have := now.bounded
    omega)
  have hge' : (-8640000000000000 : ℚ) ≤ now.ms := by exact_mod_cast hge
  have hle : (now.ms : ℚ) ≤ -1 := by exact_mod_cast Int.le_sub_one_of_lt h
  have hsmall : (2 : ℚ) ^ (-1074 : ℤ) ≤ 1 / 1000 := by
    rw [zpow_neg, ← one_div]
    refine one_div_le_one_div_of_le (by norm_num) ?_
    exact (by norm_num : (1000 : ℚ) ≤ 2 ^ 10).trans (by
      exact_mod_cast pow_le_pow_right₀ (one_le_two (α := ℚ)) (by decide : 10 ≤ 1074))
  obtain ⟨y, hy, hy0, hyge⟩ := round_bounds_neg (x := (now.ms : ℚ) / 1000) (k := 43) (by decide)
    (by rw [div_le_iff₀ (by norm_num)]; linarith)
    (by rw [le_div_iff₀ (by norm_num)]; exact le_trans (by norm_num) hge')
  have hover : JsNum.divBy 1000 (ofRat now.ms) = .fin ⟨y, round_idem hy⟩ := by
    rw [ofRat_of_round (x := ⟨now.ms, hexact⟩) hexact]
    exact ofRat_of_round hy
  have hfloor0 : ⌊y⌋ < 0 := Int.floor_lt.2 (by exact_mod_cast hy0)
  have hfloor : -2 ^ 43 ≤ ⌊y⌋ := Int.le_floor.2 (by exact_mod_cast hyge)
  have hround : round? (⌊y⌋ : ℚ) = some ↑⌊y⌋ := round_intCast (by
    rw [abs_of_neg hfloor0]
    omega)
  refine ⟨⟨⌊y⌋, hround⟩, (-⌊y⌋).toNat, ?_, ?_, by omega, by omega⟩
  · rw [secondsOf, hover]
    exact ofRat_of_round hround
  · have hnat : (((-⌊y⌋).toNat : ℤ) : ℚ) = -⌊y⌋ := by
      rw [Int.toNat_of_nonneg (by omega)]
      push_cast
      rfl
    have hcast : (((-⌊y⌋).toNat : ℕ) : ℚ) = -⌊y⌋ := (Int.cast_natCast _).symm.trans hnat
    rw [hcast, neg_neg]

theorem secondsOf_before {now : TimeValue} (h : now.ms < 0) :
    ∃ x : Double, secondsOf now = .fin x ∧ x.val < 0 := by
  obtain ⟨x, m, hx, hm, hpos, -⟩ := secondsOf_negative h
  refine ⟨x, hx, ?_⟩
  rw [hm, neg_lt_zero]
  exact_mod_cast hpos

end SealedSky.Js
