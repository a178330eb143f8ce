import SealedSky.Web.Sealing

/-!
# What a sealed message comes back as (`sealed-sky-web/src/lib/symmetric.ts`)

Web Crypto is handed buffers, and a `Uint8Array` is a window of one: `buf` cuts the window out. What
was decrypted is decoded with the defaults of `TextDecoder`, which takes a byte order mark in front of
a text for a mark and not for a part of it.

* `buf_eq` — of any window, exactly its bytes are handed on.
* `symOpen_symSeal` — what is opened is the message as `TextDecoder` decodes its UTF-8 form.
* `symOpen_symSeal_iff` — it is the message, unless that starts with U+FEFF.
-/
namespace SealedSky.Web

open Js Fallible

/-- A window of an `ArrayBuffer`. -/
structure Uint8Array where
  buffer : List UInt8
  byteOffset : ℕ
  byteLength : ℕ
  inBounds : byteOffset + byteLength ≤ buffer.length

/-- What indexing reads. -/
def Uint8Array.get? (b : Uint8Array) (i : ℕ) : Option UInt8 :=
  if i < b.byteLength then b.buffer[b.byteOffset + i]? else none

/-- An array with these bytes. -/
def Uint8Array.Holds (b : Uint8Array) (bs : List UInt8) : Prop := ∀ i, b.get? i = bs[i]?

/-- symmetric.ts:5. -/
def buf (b : Uint8Array) : List UInt8 :=
  (b.buffer.take (b.byteOffset + b.byteLength)).drop b.byteOffset

/-- **Of a window, exactly its bytes are handed on**, wherever in a buffer it lies. -/
theorem buf_eq {b : Uint8Array} {bs : List UInt8} (h : b.Holds bs) : buf b = bs := by
  apply List.ext_getElem?
  intro i
  rw [← h i, buf, List.getElem?_drop, List.getElem?_take, Uint8Array.get?]
  simp

section
variable {A : AesGcm} {keyBytes iv : List UInt8} {message : JsString} {unlockUnix : JsNum}
  {sealed : SymSealed}

/-- **What is opened** is the message as its UTF-8 form is decoded. -/
theorem symOpen_symSeal (h : symSeal A keyBytes iv message unlockUnix = .ok sealed) :
    symOpen A sealed.ct sealed.iv sealed.key = .ok (textDecode (utf8 message)) := by
  unfold symSeal at h
  by_cases hkey : importsKey keyBytes = true
  · rw [hkey] at h
    obtain ⟨-, -, h⟩ := bind_eq_ok.1 h
    obtain ⟨commit, -, h⟩ := bind_eq_ok.1 h
    cases h
    unfold symOpen
    rw [hkey, A.decrypt_encrypt]
    rfl
  · rw [eq_false_of_ne_true hkey] at h
    cases h

/-- **Exactly when a message comes back** from what it was sealed to, whatever arrays hold that. -/
theorem symOpen_symSeal_iff {ctBytes ivBytes key : Uint8Array} (hmessage : WellFormed message)
    (h : symSeal A keyBytes iv message unlockUnix = .ok sealed) (hct : ctBytes.Holds sealed.ct)
    (hiv : ivBytes.Holds sealed.iv) (hkey : key.Holds sealed.key) :
    symOpen A (buf ctBytes) (buf ivBytes) (buf key) = .ok message ↔
      message.head? ≠ some 0xFEFF := by
  rw [buf_eq hct, buf_eq hiv, buf_eq hkey, symOpen_symSeal h, Except.ok.injEq,
    textDecode_utf8_iff hmessage]

end

/-- The whole of a fresh buffer. -/
def Uint8Array.ofBytes (bs : List UInt8) : Uint8Array where
  buffer := bs
  byteOffset := 0
  byteLength := bs.length
  inBounds := by rw [Nat.zero_add]

theorem Uint8Array.holds_ofBytes (bs : List UInt8) : (ofBytes bs).Holds bs := by
  intro i
  rw [get?, ofBytes]
  by_cases hi : i < bs.length
  · rw [if_pos hi, Nat.zero_add]
  · rw [if_neg hi, List.getElem?_eq_none (not_lt.1 hi)]

/-- A key that imports and a finite unlock time are all that sealing takes. -/
theorem symSeal_isOk (A : AesGcm) {keyBytes : List UInt8} (iv : List UInt8) (message : JsString)
    (x : Binary64.Double) (hkey : importsKey keyBytes = true) :
    ∃ sealed, symSeal A keyBytes iv message (.fin x) = .ok sealed := by
  unfold symSeal
  rw [hkey]
  exact ⟨_, rfl⟩

theorem symOpen_zeroVector :
    ∃ sealed, symSeal App.zeroVector (List.replicate 32 0) (List.replicate 12 0) (js "hi")
        (ofRat 5) = .ok sealed ∧
      (symOpen App.zeroVector (buf (.ofBytes sealed.ct)) (buf (.ofBytes sealed.iv))
        (buf (.ofBytes sealed.key)) = .ok (js "hi") ↔ (js "hi").head? ≠ some 0xFEFF) := by
  have hunlock : ofRat 5 = .fin ⟨5, by decide +kernel⟩ := by decide +kernel
  obtain ⟨sealed, h⟩ := symSeal_isOk App.zeroVector (List.replicate 12 0) (js "hi")
    ⟨5, by decide +kernel⟩ (by decide : importsKey (List.replicate 32 0) = true)
  rw [← hunlock] at h
  exact ⟨sealed, h, symOpen_symSeal_iff (wellFormed_of_forall (by decide)) h
    (Uint8Array.holds_ofBytes _) (Uint8Array.holds_ofBytes _) (Uint8Array.holds_ofBytes _)⟩

/-- A mark in front of a message is lost. -/
theorem mark_lost :
    WellFormed (0xFEFF :: js "hi") ∧
      ∀ (A : AesGcm) (x : Binary64.Double), ∃ sealed, symSeal A (List.replicate 32 1)
          (List.replicate 12 2) (0xFEFF :: js "hi") (.fin x) = .ok sealed ∧
        symOpen A sealed.ct sealed.iv sealed.key = .ok (js "hi") ∧
        js "hi" ≠ 0xFEFF :: js "hi" := by
  refine ⟨wellFormed_of_forall (by decide), fun A x => ?_⟩
  obtain ⟨sealed, h⟩ := symSeal_isOk A (List.replicate 12 2) (0xFEFF :: js "hi") x
    (by decide : importsKey (List.replicate 32 1) = true)
  refine ⟨sealed, h, ?_, by decide⟩
  rw [symOpen_symSeal h, textDecode_mark (wellFormed_of_forall (by decide))]

end SealedSky.Web
