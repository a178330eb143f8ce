import Mathlib.Data.List.Basic

/-!
# Base64 groups

Three bytes are four groups of six bits; one or two bytes at the end are two or three groups, the last
filled up with zeros. The letters of the groups and the padding are left to the user.

* `ofSextets_sextets` — the bytes are read back from their groups.
* `sextets_length` — how many groups there are, which is never one more than a multiple of four.
-/
namespace SealedSky.Base64

/-- The groups of a byte string. -/
def sextets : List UInt8 → List Nat
  | [] => []
  | [a] => [a.toNat / 4, a.toNat % 4 * 16]
  | [a, b] => [a.toNat / 4, a.toNat % 4 * 16 + b.toNat / 16, b.toNat % 16 * 4]
  | a :: b :: c :: r =>
    a.toNat / 4 :: (a.toNat % 4 * 16 + b.toNat / 16) :: (b.toNat % 16 * 4 + c.toNat / 64) ::
      c.toNat % 64 :: sextets r

/-- The bytes of a row of groups; bits that make up no byte are dropped. -/
def ofSextets : List Nat → List UInt8
  | p :: q :: s :: t :: r =>
    UInt8.ofNat (p * 4 + q / 16) :: UInt8.ofNat (q % 16 * 16 + s / 4) ::
      UInt8.ofNat (s % 4 * 64 + t) :: ofSextets r
  | [p, q, s] => [UInt8.ofNat (p * 4 + q / 16), UInt8.ofNat (q % 16 * 16 + s / 4)]
  | [p, q] => [UInt8.ofNat (p * 4 + q / 16)]
  | _ => []

theorem ofNat_eq {b : UInt8} {n : Nat} (h : n = b.toNat) : UInt8.ofNat n = b := by
  rw [h, UInt8.ofNat_toNat]

/-- **The bytes are read back from their groups.** -/
theorem ofSextets_sextets (bs : List UInt8) : ofSextets (sextets bs) = bs := by
  fun_induction sextets bs with
  | case1 => rfl
  | case2 a =>
    have ha : a.toNat < 256 := a.toNat_lt
    rw [ofSextets, ofNat_eq (b := a) (by omega)]
  | case3 a b =>
    have ha : a.toNat < 256 := a.toNat_lt
    have hb : b.toNat < 256 := b.toNat_lt
    rw [ofSextets, ofNat_eq (b := a) (by omega), ofNat_eq (b := b) (by omega)]
  | case4 a b c r ih =>
    have ha : a.toNat < 256 := a.toNat_lt
    have hb : b.toNat < 256 := b.toNat_lt
    have hc : c.toNat < 256 := c.toNat_lt
    rw [ofSextets, ih, ofNat_eq (b := a) (by omega), ofNat_eq (b := b) (by omega),
      ofNat_eq (b := c) (by omega)]

theorem sextets_lt (bs : List UInt8) : ∀ n ∈ sextets bs, n < 64 := by
  fun_induction sextets bs with
  | case1 => simp
  | case2 a =>
    have ha : a.toNat < 256 := a.toNat_lt
    intro n hn
    simp only [List.mem_cons, List.not_mem_nil, or_false] at hn
    omega
  | case3 a b =>
    have ha : a.toNat < 256 := a.toNat_lt
    have hb : b.toNat < 256 := b.toNat_lt
    intro n hn
    simp only [List.mem_cons, List.not_mem_nil, or_false] at hn
    omega
  | case4 a b c r ih =>
    have ha : a.toNat < 256 := a.toNat_lt
    have hb : b.toNat < 256 := b.toNat_lt
    have hc : c.toNat < 256 := c.toNat_lt
    intro n hn
    simp only [List.mem_cons] at hn
    rcases hn with h | h | h | h | h
    · omega
    · omega
    · omega
    · omega
    · exact ih n h

/-- How many groups there are: four thirds of the bytes, rounded up. -/
theorem sextets_length (bs : List UInt8) : (sextets bs).length = (bs.length * 4 + 2) / 3 := by
  fun_induction sextets bs with
  | case1 => rfl
  | case2 a => exact (by decide : 2 = (1 * 4 + 2) / 3)
  | case3 a b => exact (by decide : 3 = (2 * 4 + 2) / 3)
  | case4 a b c r ih =>
    simp only [List.length_cons, ih]
    omega

end SealedSky.Base64
