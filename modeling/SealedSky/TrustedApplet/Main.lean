import SealedSky.TrustedApplet.Serve
import SealedSky.Lib.Sha256

/-!
# The shipped applet (`src/main.rs`)

`handle` with its three arms: `Echo`, `SignInference` and everything else.

* `handle_total` — the shipped handler returns, with a count inside the out buffer.
* `dispatch_signInference` — `SignInference` puts out the hexadecimal HMAC of its input, whole.
-/
namespace SealedSky.TrustedApplet

open Utf8 Sha256 Fallible

/-- main.rs:9. -/
def DEVICE_SECRET : List UInt8 := bytes "hackathon-demo-key-32bytes!!!!"

/-- main.rs:13. -/
def HEX : List UInt8 := bytes "0123456789abcdef"

/-- `out[j] = b`; every caller has checked the index. -/
def Buf.set {n : Nat} (out : Buf n) (j : Nat) (b : UInt8) : Buf n :=
  ⟨out.bytes.set j b, by rw [List.length_set]; exact out.length_eq⟩

/-- The loop of `hex_encode` (main.rs:17). -/
def hexEncodeFrom {n : Nat} (out : Buf n) (j : Nat) : List UInt8 → Buf n × Nat
  | [] => (out, j)
  | b :: input =>
    if j + 2 > n then (out, j)
    else
      let out := out.set j (HEX.getD (b.toNat / 16) 0)
      let out := out.set (j + 1) (HEX.getD (b.toNat % 16) 0)
      hexEncodeFrom out (j + 2) input

/-- `hex_encode` (main.rs:12). -/
def hexEncode {n : Nat} (input : List UInt8) (out : Buf n) : Buf n × Nat := hexEncodeFrom out 0 input

/-- `sign_inference` (main.rs:35). -/
def signInference {n : Nat} (input : List UInt8) (out : Buf n) : Buf n × Nat :=
  hexEncode (hmac DEVICE_SECRET input) out

/-- `let n = src.len().min(out.len()); out[..n].copy_from_slice(&src[..n])`. -/
def copyInto {n : Nat} (src : List UInt8) (out : Buf n) : Buf n × Nat :=
  (out.overlay src, min src.length n)

/-- `handle` (main.rs:42). -/
def handle : Handler Unit := fun _ method input out =>
  if method = bytes "Echo" then .ok ((), copyInto input out)
  else if method = bytes "SignInference" then .ok ((), signInference input out)
  else .ok ((), copyInto (bytes "unknown_method") out)

/-! ## `hex_encode` -/

theorem hexEncodeFrom_le {n : Nat} : ∀ (input : List UInt8) (out : Buf n) (j : Nat), j ≤ n →
    (hexEncodeFrom out j input).2 ≤ n
  | [], _, _, hj => hj
  | b :: input, out, j, hj => by
    rw [hexEncodeFrom]
    split
    · exact hj
    · exact hexEncodeFrom_le input _ (j + 2) (by omega)

theorem take_set_succ {l : List UInt8} {j : Nat} (x : UInt8) (h : j < l.length) :
    (l.set j x).take (j + 1) = l.take j ++ [x] := by
  rw [List.take_add_one, List.take_set_of_le (Nat.le_refl j), List.getElem?_set_self h]
  rfl

/-- The two digits of a byte. -/
def hexPair (b : UInt8) : List UInt8 := [HEX.getD (b.toNat / 16) 0, HEX.getD (b.toNat % 16) 0]

/-- With room for all of them, the digits of `input` stand behind what was written before. -/
theorem hexEncodeFrom_spec {n : Nat} : ∀ (input : List UInt8) (out : Buf n) (j : Nat),
    j + 2 * input.length ≤ n →
    (hexEncodeFrom out j input).2 = j + 2 * input.length ∧
      (hexEncodeFrom out j input).1.bytes.take (j + 2 * input.length) =
        out.bytes.take j ++ input.flatMap hexPair
  | [], out, j, _ => by simp [hexEncodeFrom]
  | b :: input, out, j, h => by
    rw [List.length_cons] at h
    have hlen := out.length_eq
    rw [hexEncodeFrom, if_neg (by omega)]
    obtain ⟨hc, hb⟩ := hexEncodeFrom_spec input
      ((out.set j (HEX.getD (b.toNat / 16) 0)).set (j + 1) (HEX.getD (b.toNat % 16) 0)) (j + 2)
      (by omega)
    have hj : j + 2 + 2 * input.length = j + 2 * (input.length + 1) := by omega
    rw [hj] at hc hb
    have htake : ((out.set j (HEX.getD (b.toNat / 16) 0)).set (j + 1)
        (HEX.getD (b.toNat % 16) 0)).bytes.take (j + 2) = out.bytes.take j ++ hexPair b := by
      unfold Buf.set
      simp only
      rw [take_set_succ _ (by rw [List.length_set]; omega), take_set_succ _ (by omega)]
      rw [List.append_assoc]
      rfl
    rw [List.length_cons]
    exact ⟨hc, by rw [hb, htake, List.flatMap_cons, List.append_assoc]⟩

theorem hexDigit_byte : ∀ n < 16, [HEX.getD n 0] = String.utf8EncodeChar (hexDigit n) := by
  decide

/-- The digits `hex_encode` writes are the bytes of the lowercase hexadecimal text. -/
theorem flatMap_hexPair (input : List UInt8) : input.flatMap hexPair = encode (hexLower input) := by
  induction input with
  | nil => rfl
  | cons b input ih =>
    have hb := b.toNat_lt
    have h1 := hexDigit_byte (b.toNat / 16) (by omega)
    have h2 := hexDigit_byte (b.toNat % 16) (by omega)
    simp only [hexLower, List.flatMap_cons, encode_append, encode_cons, encode_nil, ← h1, ← h2]
      at ih ⊢
    rw [ih]
    rfl

theorem hexEncode_spec {n : Nat} {input : List UInt8} (out : Buf n) (h : 2 * input.length ≤ n) :
    (hexEncode input out).2 = 2 * input.length ∧
      (hexEncode input out).1.bytes.take (2 * input.length) = encode (hexLower input) := by
  obtain ⟨hc, hb⟩ := hexEncodeFrom_spec input out 0 (by omega)
  rw [Nat.zero_add] at hc hb
  exact ⟨hc, by rw [hexEncode, hb, flatMap_hexPair]; rfl⟩

/-! ## `handle` -/

/-- **The shipped handler always returns**, and never claims more bytes than the buffer has. -/
theorem handle_total (u : Unit) (method input : List UInt8) (out : Buf 4096) :
    ∃ out' n, handle u method input out = .ok ((), out', n) ∧ n ≤ 4096 := by
  unfold handle
  split
  · exact ⟨_, _, rfl, Nat.min_le_right _ _⟩
  · split
    · refine ⟨(signInference input out).1, (signInference input out).2, rfl, ?_⟩
      exact hexEncodeFrom_le (hmac DEVICE_SECRET input) out 0 (Nat.zero_le _)
    · exact ⟨_, _, rfl, Nat.min_le_right _ _⟩

theorem dispatch_handle (req : Request) (mem : Mem Unit) :
    ∃ turn, dispatch handle req mem = .ok turn ∧ turn.req = req := by
  obtain ⟨out', n, h, hn⟩ := handle_total mem.user req.method req.input mem.outBuf
  unfold dispatch
  simp only [h, ok_bind, Buf.upTo_of_le hn]
  exact ⟨_, rfl, rfl⟩

/-- **`SignInference`** puts out the HMAC of exactly the input it was given. -/
theorem dispatch_signInference {req : Request} {mem : Mem Unit} {turn : Turn Unit}
    (hm : req.method = bytes "SignInference") (h : dispatch handle req mem = .ok turn) :
    turn.output = encode (hexLower (hmac DEVICE_SECRET req.input)) := by
  have hfit : 2 * (hmac DEVICE_SECRET req.input).length ≤ 4096 := by
    rw [hmac_length]
    decide
  obtain ⟨hc, hb⟩ := hexEncode_spec mem.outBuf hfit
  have hne : bytes "SignInference" ≠ bytes "Echo" := by decide
  unfold dispatch at h
  simp only [handle, hm, if_neg hne, if_true, signInference, ok_bind] at h
  rw [hc, Buf.upTo_of_le (by rw [hmac_length]; decide), hb] at h
  simp only [ok_bind, Except.ok.injEq] at h
  rw [← h]
  exact fromUtf8OrEmpty_encode _

/-- **`Echo`** puts out its input, as far as the out buffer holds it and if that is a text. -/
theorem dispatch_echo {req : Request} {mem : Mem Unit} {turn : Turn Unit}
    (hm : req.method = bytes "Echo") (h : dispatch handle req mem = .ok turn) :
    turn.output = fromUtf8OrEmpty (req.input.take 4096) := by
  unfold dispatch at h
  simp only [handle, hm, if_true, copyInto, ok_bind, Buf.upTo_overlay,
    Except.ok.injEq] at h
  rw [← h]

end SealedSky.TrustedApplet
