import Mathlib.Data.List.Basic

/-!
# CRC-32 and little-endian words

The reflected CRC-32 with polynomial `0xEDB88320`, bit by bit, and the four bytes of a word with the
lowest first.

* `checksum_append_inj` — texts with different checksums keep them apart with the same bytes behind.
* `uint32_putUint32` — a word is read back from its bytes.
-/
namespace SealedSky.Crc32

/-- One bit of the division. -/
def shift (c : UInt32) : UInt32 := if c &&& 1 = 1 then (c >>> 1) ^^^ 0xEDB88320 else c >>> 1

def shifts : Nat → UInt32 → UInt32
  | 0, c => c
  | n + 1, c => shifts n (shift c)

def update (c : UInt32) (b : UInt8) : UInt32 := shifts 8 (c ^^^ b.toUInt32)

def checksum (bs : List UInt8) : UInt32 := bs.foldl update 0xFFFFFFFF ^^^ 0xFFFFFFFF

example : checksum [0x31, 0x32, 0x33, 0x34, 0x35, 0x36, 0x37, 0x38, 0x39] = 0xCBF43926 := by
  decide +kernel

/-! ## Bytes behind a text -/

theorem xor_left_inj {a b : UInt32} (c : UInt32) : a ^^^ c = b ^^^ c ↔ a = b := by
  rw [← UInt32.toBitVec_inj, ← UInt32.toBitVec_inj, UInt32.toBitVec_xor, UInt32.toBitVec_xor,
    BitVec.xor_left_inj]

theorem and_one_eq_one (x : UInt32) : x &&& 1 = 1 ↔ x.toNat % 2 = 1 := by
  rw [← UInt32.toNat_inj, UInt32.toNat_and]
  exact Nat.and_one_is_mod _ ▸ Iff.rfl

theorem toNat_half (x : UInt32) : (x >>> 1).toNat = x.toNat / 2 := by
  rw [UInt32.toNat_shiftRight]
  exact Nat.shiftRight_eq_div_pow _ 1

theorem eq_of_halves {c c' : UInt32} (h : c >>> 1 = c' >>> 1) (hlow : c.toNat % 2 = c'.toNat % 2) :
    c = c' := by
  have hhalf := congrArg UInt32.toNat h
  rw [toNat_half, toNat_half] at hhalf
  rw [← UInt32.toNat_inj]
  omega

/-- The bit that is shifted out is the top bit afterwards. -/
theorem half_xor_ne (c c' : UInt32) : (c >>> 1) ^^^ (0xEDB88320 : UInt32) ≠ c' >>> 1 := by
  intro h
  have htop : ∀ x : UInt32, (x.toNat / 2).testBit 31 = false := fun x => by
    have hx : x.toNat < 2 ^ 32 := x.toNat_lt
    exact Nat.testBit_lt_two_pow (by omega)
  have hpoly : (0xEDB88320 : UInt32).toNat.testBit 31 = true := by decide
  have hbit := congrArg (fun x : UInt32 => x.toNat.testBit 31) h
  simp only [UInt32.toNat_xor, Nat.testBit_xor, toNat_half, htop, hpoly] at hbit
  cases hbit

theorem shift_inj {c c' : UInt32} (h : shift c = shift c') : c = c' := by
  unfold shift at h
  split_ifs at h with hc hc' hc'
  · rw [and_one_eq_one] at hc hc'
    exact eq_of_halves ((xor_left_inj _).1 h) (hc.trans hc'.symm)
  · exact absurd h (half_xor_ne c c')
  · exact absurd h.symm (half_xor_ne c' c)
  · rw [and_one_eq_one] at hc hc'
    exact eq_of_halves h (by omega)

theorem shifts_inj {n : Nat} {c c' : UInt32} (h : shifts n c = shifts n c') : c = c' := by
  induction n generalizing c c' with
  | zero => exact h
  | succ n ih => exact shift_inj (ih h)

theorem update_inj {c c' : UInt32} {b : UInt8} (h : update c b = update c' b) : c = c' :=
  (xor_left_inj _).1 (shifts_inj h)

theorem foldl_update_inj {bs : List UInt8} {c c' : UInt32}
    (h : bs.foldl update c = bs.foldl update c') : c = c' := by
  induction bs generalizing c c' with
  | nil => exact h
  | cons b bs ih => exact update_inj (ih h)

/-- **What tells two texts apart still does with the same bytes behind both.** -/
theorem checksum_append_inj {as bs cs : List UInt8}
    (h : checksum (as ++ cs) = checksum (bs ++ cs)) : checksum as = checksum bs := by
  unfold checksum at h ⊢
  rw [xor_left_inj, List.foldl_append, List.foldl_append] at h
  rw [foldl_update_inj h]
/-! ## Little-endian words -/

def putUint32 (v : UInt32) : List UInt8 :=
  [UInt8.ofNat v.toNat, UInt8.ofNat (v.toNat / 0x100), UInt8.ofNat (v.toNat / 0x10000),
    UInt8.ofNat (v.toNat / 0x1000000)]

def uint32 : List UInt8 → UInt32
  | [x, y, z, w] =>
    UInt32.ofNat (x.toNat + 0x100 * y.toNat + 0x10000 * z.toNat + 0x1000000 * w.toNat)
  | _ => 0

@[simp] theorem putUint32_length (v : UInt32) : (putUint32 v).length = 4 := rfl

theorem uint32_putUint32 (v : UInt32) : uint32 (putUint32 v) = v := by
  have hv : v.toNat < 2 ^ 32 := v.toNat_lt
  have hsum : v.toNat % 256 + 0x100 * (v.toNat / 0x100 % 256) +
      0x10000 * (v.toNat / 0x10000 % 256) + 0x1000000 * (v.toNat / 0x1000000 % 256) = v.toNat := by
    omega
  simp only [putUint32, uint32, UInt8.toNat_ofNat']
  exact (congrArg UInt32.ofNat hsum).trans UInt32.ofNat_toNat

end SealedSky.Crc32
