import SealedSky.Backend.Payload
import SealedSky.Web.UsbSignInference

/-!
# Signing and submitting one form

The same form goes to `/sign-inference` with its timestamp as text and to `/submit` with its
timestamp as a number, which the backend prints again. Both requests travel as JSON: a string arrives
as it is, and a number as what its text reads as.

* `submit_payload_iff` — the backend authenticates what the device signed exactly when the trimmed
  timestamp is the text JavaScript prints for a number.
* `genuine_proof_matched` — then the device's own proof is matched.
-/
namespace SealedSky.Web

open Js Sha256 SealedSky.Backend

/-- A number through `JSON.stringify` and `JSON.parse`. -/
def overJson (x : JsNum) : JsValue :=
  if x.isFinite then .num (stringToNumber (toString x)) else .null

/-- What the backend receives. -/
def SignBody.received (body : SignBody) : Body where
  sealedSkyText := .str body.sealedSkyText
  result := .undefined
  timestamp := .str body.timestamp
  imageHash := .str body.imageHash
  proof := .undefined

def SubmitBody.received (body : SubmitBody) : Body where
  sealedSkyText := .str body.sealedSkyText
  result := .undefined
  timestamp := overJson body.timestamp
  imageHash := .str body.imageHash
  proof := .str body.proof

/-- No field that both requests read has been edited. -/
structure SameForm (view view' : Cells) : Prop where
  sealedSkyText : view'.sealedSkyText = view.sealedSkyText
  timestamp : view'.timestamp = view.timestamp
  contentHash : view'.contentHash = view.contentHash

/-- A text is what JavaScript prints for some number. -/
def NumberText (s : JsString) : Prop := ∃ x, toString x = s

theorem numberText_iff {s : JsString} : toString (stringToNumber s) = s ↔ NumberText s := by
  constructor
  · intro h
    exact ⟨stringToNumber s, h⟩
  · rintro ⟨x, rfl⟩
    rw [stringToNumber_toString]

instance (s : JsString) : Decidable (NumberText s) := decidable_of_iff _ numberText_iff

theorem overJson_finite {x : JsNum} (h : x.isFinite = true) : overJson x = .num x := by
  rw [overJson, if_pos h, stringToNumber_toString]

/-- Stripping `0x` off a proof leaves no blank text. -/
theorem trim_normalizeProofHex {p : JsString} (h : normalizeProofHex p ≠ []) :
    trim (normalizeProofHex p) ≠ [] := by
  obtain ⟨q, u, hq⟩ : ∃ q u, normalizeProofHex p = q ++ [u] :=
    ⟨_, _, (List.dropLast_append_getLast h).symm⟩
  obtain ⟨r, hr⟩ : ∃ r, trim p = r ++ [u] := by
    unfold normalizeProofHex at hq
    simp only at hq
    split at hq
    · exact ⟨(trim p).take 2 ++ q, by
        rw [List.append_assoc, ← hq, List.take_append_drop]⟩
    · exact ⟨q, hq⟩
  exact trim_ne_nil_of_mem (hq ▸ List.mem_append_right q (List.mem_singleton_self u))
    (isSpace_last_of_trim hr)

section
variable {view view' : Cells} {body : SubmitBody}

/-- The device signs the fields of the form, trimmed. -/
theorem signInference_received (view : Cells) :
    signInference (onSign view).received = .request ⟨js "SignInference",
      sealedSkyTextFromBody (onSign view).received ++
        124 :: (trim view.timestamp ++ 124 :: trim view.contentHash)⟩ := by
  have hvalid : isTimestampValid (onSign view).received.timestamp = some true := by
    simp [isTimestampValid, SignBody.received, JsValue.toNumber, JsValue.str?]
  have htext : (onSign view).received.imageHash.str?.isNone = false := rfl
  have hpayload : canonicalPayload (onSign view).received =
      some (sealedSkyTextFromBody (onSign view).received ++
        124 :: (trim view.timestamp ++ 124 :: trim view.contentHash)) := by
    simp [canonicalPayload, SignBody.received, onSign]
  unfold signInference
  rw [htext, hvalid, hpayload]
  rfl

/-- The backend authenticates the same fields with the timestamp printed again. -/
theorem authenticatedPayload_received (hsubmit : onSubmitSepolia view' = .ok body) :
    authenticatedPayload body.received =
      if trim view'.contentHash = [] then none
      else some (sealedSkyTextFromBody (onSign view').received ++
        124 :: (toString (stringToNumber (trim view'.timestamp)) ++
          124 :: trim view'.contentHash)) := by
  obtain ⟨hfin, hproof, rfl⟩ := onSubmitSepolia_ok.1 hsubmit
  have hts := overJson_finite hfin
  generalize stringToNumber (trim view'.timestamp) = x at hfin hts
  have hvalid : isTimestampValid (JsValue.num x) = some true := by
    simp [isTimestampValid, JsValue.toNumber, hfin]
  have hhash : isText (.str (trim view'.contentHash)) = true ↔ trim view'.contentHash ≠ [] := by
    simp [isText, JsValue.str?, trim_trim]
  have hproof' : isText (.str (normalizeProofHex view'.proof)) = true :=
    isText_iff.2 ⟨_, rfl, trim_normalizeProofHex hproof⟩
  unfold authenticatedPayload SubmitBody.received
  simp only [hts, hvalid, hhash, hproof', true_and, and_true]
  by_cases hempty : trim view'.contentHash = []
  · rw [if_neg (not_not.2 hempty), if_pos hempty]
  · rw [if_pos hempty, if_neg hempty]
    simp only [canonicalPayload, JsValue.toText_num, JsValue.toText_str, Option.bind_some,
      Option.map_some]
    rfl

theorem received_of_sameForm (h : SameForm view view') :
    (onSign view').received = (onSign view).received := by
  unfold onSign
  rw [h.sealedSkyText, h.timestamp, h.contentHash]

/-- **The backend authenticates what the device signed** exactly when the trimmed timestamp is the
text JavaScript prints for a number, and there is a content hash. -/
theorem submit_payload_iff (hform : SameForm view view')
    (hsubmit : onSubmitSepolia view' = .ok body) :
    (∃ p, signInference (onSign view).received = .request ⟨js "SignInference", p⟩ ∧
        authenticatedPayload body.received = some p) ↔
      NumberText (trim view.timestamp) ∧ trim view.contentHash ≠ [] := by
  rw [authenticatedPayload_received hsubmit, received_of_sameForm hform, hform.timestamp,
    hform.contentHash, signInference_received]
  by_cases hempty : trim view.contentHash = []
  · simp [hempty]
  · rw [if_neg hempty]
    simp only [Signing.request.injEq, DeviceRequest.mk.injEq, true_and, Option.some.injEq,
      exists_eq_left', List.append_cancel_left_eq, List.cons.injEq, List.append_cancel_right_eq,
      numberText_iff, hempty, ne_eq, not_false_eq_true, and_true]

/-- **The device's own proof is matched** then. -/
theorem genuine_proof_matched (hform : SameForm view view')
    (hsubmit : onSubmitSepolia view' = .ok body) (hnumber : NumberText (trim view.timestamp))
    (hhash : trim view.contentHash ≠ []) {p : JsString}
    (hsign : signInference (onSign view).received = .request ⟨js "SignInference", p⟩)
    (hproof : body.proof = hmacHex DEVICE_SECRET p) : submit body.received = .matched p := by
  rw [signInference_received] at hsign
  have hp := (DeviceRequest.mk.inj (Signing.request.inj hsign)).2
  have hauth := authenticatedPayload_received hsubmit
  rw [received_of_sameForm hform, hform.timestamp, hform.contentHash, if_neg hhash,
    numberText_iff.2 hnumber, hp] at hauth
  obtain ⟨proof, hreceived, hmatch⟩ := submit_of_authenticatedPayload hauth
  have hreceived : JsValue.str body.proof = .str proof := hreceived
  rw [hmatch, ← JsValue.str.inj hreceived, hproof, matchProof]
  simp only [hmacHex, normalizeProofHex_hexText, if_true]

end

/-- A form with a timestamp. -/
def formAt (timestamp : String) : Cells :=
  ⟨js "a", js timestamp, js "0xab", false, [], .idle, js "cd", .idle, none⟩

theorem sameForm_refl (view : Cells) : SameForm view view := ⟨rfl, rfl, rfl⟩

theorem onSubmitSepolia_formAt {timestamp : String}
    (h : (stringToNumber (trim (js timestamp))).isFinite = true) :
    onSubmitSepolia (formAt timestamp) =
      .ok ⟨js "a", stringToNumber (trim (js timestamp)), js "0xab", js "cd"⟩ := by
  have hproof : normalizeProofHex (formAt timestamp).proof = js "cd" := rfl
  exact onSubmitSepolia_ok.2 ⟨h, by rw [hproof]; decide, rfl⟩

theorem submit_payload_plain : ∃ body, onSubmitSepolia (formAt "1700000000") = .ok body ∧
    ∃ p, signInference (onSign (formAt "1700000000")).received =
        .request ⟨js "SignInference", p⟩ ∧ authenticatedPayload body.received = some p :=
  ⟨_, onSubmitSepolia_formAt (by decide +kernel),
    (submit_payload_iff (sameForm_refl _) (onSubmitSepolia_formAt (by decide +kernel))).2
      ⟨by decide +kernel, by decide⟩⟩

/-- Leading zeros are signed, and not submitted. -/
theorem submit_payload_zeros : ∃ body, onSubmitSepolia (formAt "007") = .ok body ∧
    signInference (onSign (formAt "007")).received =
      .request ⟨js "SignInference", js "a|007|0xab"⟩ ∧
    authenticatedPayload body.received = some (js "a|7|0xab") ∧
    js "a|007|0xab" ≠ js "a|7|0xab" := by
  have hfin : (stringToNumber (trim (js "007"))).isFinite = true := by decide +kernel
  refine ⟨_, onSubmitSepolia_formAt hfin, by decide +kernel, ?_, by decide⟩
  rw [authenticatedPayload_received (onSubmitSepolia_formAt hfin)]
  decide +kernel

end SealedSky.Web
