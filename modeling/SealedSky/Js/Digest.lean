import SealedSky.Js.String
import SealedSky.Lib.Sha256

/-!
# Digests as JavaScript text

`digest("hex")` of `node:crypto`, and the same text built from a `Uint8Array` with
`toString(16).padStart(2, "0")`: two lowercase hexadecimal digits for each byte.
-/
namespace SealedSky.Js

open Sha256

def hexPair (b : UInt8) : JsString :=
  [UInt16.ofNat (hexDigit (b.toNat / 16)).toNat, UInt16.ofNat (hexDigit (b.toNat % 16)).toNat]

def hexText (bs : List UInt8) : JsString := bs.flatMap hexPair

/-- `createHmac("sha256", key).update(s).digest("hex")`. -/
def hmacHex (key : List UInt8) (s : JsString) : JsString := hexText (hmac key (utf8 s))

theorem hexText_length (bs : List UInt8) : (hexText bs).length = 2 * bs.length := by
  induction bs with
  | nil => rfl
  | cons b bs ih =>
    rw [hexText, List.flatMap_cons, List.length_append, ← hexText, ih, List.length_cons]
    simp only [hexPair, List.length_cons, List.length_nil]
    omega

theorem hexUnit_injective : ∀ m < 16, ∀ n < 16,
    UInt16.ofNat (hexDigit m).toNat = UInt16.ofNat (hexDigit n).toNat → m = n := by
  decide

theorem hexText_injective : ∀ {bs cs : List UInt8}, hexText bs = hexText cs → bs = cs
  | [], [], _ => rfl
  | b :: bs, c :: cs, h => by
    simp only [hexText, List.flatMap_cons, hexPair, List.cons_append, List.nil_append,
      List.cons.injEq] at h
    obtain ⟨hhi, hlo, hrest⟩ := h
    have hb : b.toNat < 256 := b.toNat_lt
    have hc : c.toNat < 256 := c.toNat_lt
    have h1 := hexUnit_injective (b.toNat / 16) (by omega) (c.toNat / 16) (by omega) hhi
    have h2 := hexUnit_injective (b.toNat % 16) (by omega) (c.toNat % 16) (by omega) hlo
    have hbc : b = c := UInt8.toNat_inj.1 (by omega)
    rw [hbc, hexText_injective hrest]

theorem mem_hexText {bs : List UInt8} {u : UInt16} (h : u ∈ hexText bs) :
    u ∈ js "0123456789abcdef" := by
  have hunit : ∀ n < 16, UInt16.ofNat (hexDigit n).toNat ∈ js "0123456789abcdef" := by decide
  obtain ⟨b, -, hu⟩ := List.mem_flatMap.1 h
  have hb : b.toNat < 256 := b.toNat_lt
  rcases List.mem_pair.1 hu with rfl | rfl
  · exact hunit _ (by omega)
  · exact hunit _ (by omega)

end SealedSky.Js
