import SealedSky.Js.Codec
import SealedSky.Lib.Fallible
import SealedSky.Lib.Sha256

/-!
# Sealing under a key that stays in the browser (`sealed-sky-web/src/lib/symmetric.ts`, `bytes.ts`)

AES-GCM with a commitment to the key, the iv and the unlock time: the SHA-256 of a label, the key, the
iv and the unlock time as eight bytes. What an envelope says is not checked for its type before it is
used here, so an expected commitment and an unlock time are any values.

* `verifyCommitment_commitment` — a commitment verifies against what it was made of.
* `commitment_of_verifyCommitment` — what verifies is the commitment.
-/
namespace SealedSky.Web

open Js Sha256 Fallible

/-- What a function throws: an exception of the engine, whose text is the engine's, or an `Error` of
the code's own. -/
inductive Thrown where
  | engine
  | error (message : JsString)
  deriving DecidableEq

abbrev Result := Except Thrown

/-- What throws in the engine, if anything. -/
def ofEngine {α : Type} : Option α → Result α
  | some x => .ok x
  | none => .error .engine

/-- bytes.ts:1. -/
def bytesToB64 (bs : List UInt8) : JsString := btoa bs

/-- bytes.ts:7. `atob` converts what it is given to a string. -/
def b64ToBytes (b64 : JsValue) : Result (List UInt8) := ofEngine (b64.toText.bind atob)

/-- bytes.ts:14. -/
def bytesToHex (bs : List UInt8) : JsString := hexText bs

/-- `BigInt(Math.trunc(n))`, `none` where it throws. -/
def bigIntTrunc : JsNum → Option ℤ
  | .fin x => some (if 0 ≤ x.val then ⌊x.val⌋ else ⌈x.val⌉)
  | _ => none

/-- The loop of `u64BeBytes`: `k` more bytes in front of `out`. -/
def u64Loop : ℕ → ℤ → List UInt8 → List UInt8
  | 0, _, out => out
  | k + 1, v, out => u64Loop k (v / 256) (UInt8.ofNat (v % 256).toNat :: out)

/-- bytes.ts:28. -/
def u64BeBytes (n : JsNum) : Result (List UInt8) :=
  ofEngine ((bigIntTrunc n).map fun v => u64Loop 8 v [])

/-- symmetric.ts:3. -/
def COMMIT_LABEL : List UInt8 := utf8 (js "sealed-sky/ctrng-cr-v1")

/-- symmetric.ts:55. -/
def commitment (keyBytes iv : List UInt8) (unlockUnix : JsValue) : Result JsString := do
  let n ← ofEngine unlockUnix.toNumber
  let unlock ← u64BeBytes n
  .ok (bytesToHex (sha256 (COMMIT_LABEL ++ keyBytes ++ iv ++ unlock)))

/-- `diff` after the loop of `constantTimeEqHex`. -/
def diff : JsString → JsString → UInt16
  | a :: s, b :: t => (a ^^^ b) ||| diff s t
  | _, _ => 0

/-- symmetric.ts:75. -/
def constantTimeEqHex (a b : JsString) : Bool :=
  if a.length ≠ b.length then false else decide (diff a b = 0)

/-- symmetric.ts:65. What is no string has no length that equals the 64 digits, or no `charCodeAt`. -/
def verifyCommitment (expectedHex : JsValue) (keyBytes iv : List UInt8) (unlockUnix : JsValue) :
    Result Bool := do
  let got ← commitment keyBytes iv unlockUnix
  match expectedHex with
  | .str expected => .ok (constantTimeEqHex got expected)
  | .undefined => .error .engine
  | .null => .error .engine
  | .bool _ => .ok false
  | .num _ => .ok false
  | .arr vs => if got.length ≠ vs.length then .ok false else .error .engine
  | .obj ps =>
    match lookup ps (js "length") with
    | .num x => if ofRat got.length ≠ x then .ok false else .error .engine
    | _ => .ok false

/-- AES-GCM of Web Crypto, for keys that import. -/
structure AesGcm where
  encrypt : (keyBytes iv plaintext : List UInt8) → List UInt8
  decrypt : (keyBytes iv ct : List UInt8) → Option (List UInt8)
  decrypt_encrypt : ∀ keyBytes iv plaintext,
    decrypt keyBytes iv (encrypt keyBytes iv plaintext) = some plaintext

/-- `importKey` takes keys of 128, 192 and 256 bits. -/
def importsKey (keyBytes : List UInt8) : Bool := decide (keyBytes.length ∈ [16, 24, 32])

/-- symmetric.ts:9. -/
structure SymSealed where
  ct : List UInt8
  iv : List UInt8
  key : List UInt8
  commit : JsString

/-- symmetric.ts:16, with what `getRandomValues` has given. -/
def symSeal (A : AesGcm) (keyBytes iv : List UInt8) (plaintext : JsString) (unlockUnix : JsNum) :
    Result SymSealed := do
  if !importsKey keyBytes then .error .engine
  let ct := A.encrypt keyBytes iv (utf8 plaintext)
  let commit ← commitment keyBytes iv (.num unlockUnix)
  .ok { ct, iv, key := keyBytes, commit }

/-- symmetric.ts:37. -/
def symOpen (A : AesGcm) (ct iv keyBytes : List UInt8) : Result JsString := do
  if !importsKey keyBytes then .error .engine
  let pt ← ofEngine (A.decrypt keyBytes iv ct)
  .ok (textDecode pt)

/-! ## Commitments -/

theorem xor_or_eq_zero {a b d : UInt16} : (a ^^^ b) ||| d = 0 ↔ a = b ∧ d = 0 := by
  rw [UInt16.or_eq_zero_iff, UInt16.xor_eq_zero_iff]

theorem diff_eq_zero : ∀ {a b : JsString}, a.length = b.length → (diff a b = 0 ↔ a = b)
  | [], [], _ => by simp [diff]
  | a :: s, b :: t, h => by
    rw [diff, xor_or_eq_zero, diff_eq_zero (Nat.succ.inj h), List.cons.injEq]

theorem constantTimeEqHex_iff {a b : JsString} : constantTimeEqHex a b = true ↔ a = b := by
  unfold constantTimeEqHex
  by_cases h : a.length = b.length
  · rw [if_neg (not_not.2 h), decide_eq_true_eq, diff_eq_zero h]
  · rw [if_pos h]
    exact iff_of_false (by decide) fun heq => h (heq ▸ rfl)

section
variable {keyBytes iv : List UInt8} {unlockUnix : JsValue} {commit : JsString}

/-- Only an unlock time that is a finite number can be committed to. -/
theorem commitment_finite (h : commitment keyBytes iv unlockUnix = .ok commit) :
    ∃ n, unlockUnix.toNumber = some n ∧ n.isFinite = true := by
  unfold commitment at h
  cases hn : unlockUnix.toNumber with
  | none =>
    rw [hn] at h
    cases h
  | some n =>
    rw [hn] at h
    cases n with
    | fin x => exact ⟨_, rfl, rfl⟩
    | _ => cases h

/-- **A commitment verifies against what it was made of.** -/
theorem verifyCommitment_commitment (h : commitment keyBytes iv unlockUnix = .ok commit) :
    verifyCommitment (.str commit) keyBytes iv unlockUnix = .ok true := by
  unfold verifyCommitment
  rw [h]
  exact congrArg Except.ok (constantTimeEqHex_iff.2 rfl)

/-- **What verifies is the commitment.** -/
theorem commitment_of_verifyCommitment {expectedHex : JsValue}
    (h : verifyCommitment expectedHex keyBytes iv unlockUnix = .ok true) :
    ∃ got, commitment keyBytes iv unlockUnix = .ok got ∧ expectedHex = .str got := by
  unfold verifyCommitment at h
  cases hc : commitment keyBytes iv unlockUnix with
  | error e =>
    rw [hc] at h
    cases h
  | ok got =>
    rw [hc] at h
    refine ⟨got, rfl, ?_⟩
    cases expectedHex with
    | str expected =>
      have heq := constantTimeEqHex_iff.1 (Except.ok.inj h)
      rw [heq]
    | arr vs =>
      simp only [ok_bind] at h
      split at h <;> cases h
    | obj ps =>
      simp only [ok_bind] at h
      split at h
      · split at h <;> cases h
      · cases h
    | _ => cases h

end

end SealedSky.Web
