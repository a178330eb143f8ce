import SealedSky.Backend.Server

/-!
# `/sign-inference` and `/submit` agree (`backend/server.js`)

The two handlers read the fields and build the payload on their own. What the device was sent is the
payload `/submit` expects, and the digest the device returned is a proof for it in any spelling that
`normalizeProofHex` undoes.

* `normalizeProofHex_spelling` — every spelling of a digest is normalised to the digest.
* `handleSign_replied` — a reply of the device with a digest is answered with that digest.
* `submit_of_signed` — the digest of what was signed is matched to the canonical payload.
-/
namespace SealedSky.Backend

open Js Sha256

/-- Letters of any case, behind `0x`, `0X` or nothing, with white space around them. -/
def Spelling (digest proof : JsString) : Prop :=
  ∃ before marker letters after, proof = before ++ (marker ++ letters ++ after) ∧
    (∀ u ∈ before, isSpace u = true) ∧ marker ∈ [[], js "0x", js "0X"] ∧
    letters.map lowerUnit = digest ∧ ∀ u ∈ after, isSpace u = true

/-- The fields that both handlers read are the same. -/
structure SameFields (body body' : Body) : Prop where
  sealedSkyText : body'.sealedSkyText = body.sealedSkyText
  result : body'.result = body.result
  timestamp : body'.timestamp = body.timestamp
  imageHash : body'.imageHash = body.imageHash

/-- `nc` has delivered an object with this `Output` and no `Error`. -/
structure Replied (nc : NcResult) (output : JsString) : Prop where
  status : nc.status = some 0
  stdout : ∃ parsed, parse (trim (nc.stdout.getD [])) = some parsed ∧
    truthy (parsed.get (js "Error")) = false ∧ parsed.get (js "Output") = .str output

/-! ## Spellings of a digest -/

/-- What is lowered to a hexadecimal digit is a letter or a digit itself. -/
theorem lowerUnit_hex {u : UInt16} (h : lowerUnit u ∈ js "0123456789abcdef") :
    isSpace u = false ∧ u ≠ 120 ∧ u ≠ 88 := by
  by_cases hupper : 65 ≤ u.toNat ∧ u.toNat ≤ 90
  · have hall : ∀ n < 91, 65 ≤ n → lowerUnit (UInt16.ofNat n) ∈ js "0123456789abcdef" →
        isSpace (UInt16.ofNat n) = false ∧ UInt16.ofNat n ≠ 120 ∧ UInt16.ofNat n ≠ 88 := by
      decide
    have hu := hall u.toNat (by omega) hupper.1
    rw [UInt16.ofNat_toNat] at hu
    exact hu h
  · have hall : ∀ v ∈ js "0123456789abcdef", isSpace v = false ∧ v ≠ 120 ∧ v ≠ 88 := by decide
    rw [lowerUnit, if_neg hupper] at h
    exact hall u h

/-- Behind the marker nothing is dropped. -/
theorem drop0x_marker {marker letters : JsString} (hmarker : marker ∈ [[], js "0x", js "0X"])
    (hplain : ∀ u ∈ letters, u ≠ 120 ∧ u ≠ 88) : drop0x (marker ++ letters) = letters := by
  simp only [List.mem_cons, List.not_mem_nil, or_false] at hmarker
  rcases hmarker with rfl | rfl | rfl
  · exact drop0x_plain hplain
  · rfl
  · rfl

/-- **Every spelling of a digest is normalised to the digest.** -/
theorem normalizeProofHex_spelling {bs : List UInt8} {proof : JsString}
    (h : Spelling (hexText bs) proof) : normalizeProofHex proof = hexText bs := by
  obtain ⟨before, marker, letters, after, rfl, hbefore, hmarker, hletters, hafter⟩ := h
  have hplain : ∀ u ∈ letters, isSpace u = false ∧ u ≠ 120 ∧ u ≠ 88 := by
    intro u hu
    have hmem : lowerUnit u ∈ hexText bs := hletters ▸ List.mem_map_of_mem hu
    exact lowerUnit_hex (mem_hexText hmem)
  have hnospace : ∀ u ∈ marker ++ letters, isSpace u = false := by
    intro u hu
    rcases List.mem_append.1 hu with hu | hu
    · have hall : ∀ m ∈ [[], js "0x", js "0X"], ∀ v ∈ m, isSpace v = false := by decide
      exact hall marker hmarker u hu
    · exact (hplain u hu).1
  unfold normalizeProofHex
  rw [trim_between hbefore hnospace hafter, trim_of_noSpace hnospace,
    drop0x_marker hmarker fun u hu => (hplain u hu).2, hletters]

/-- What leaves something is not blank. -/
theorem trim_of_normalized {proof : JsString} (hne : normalizeProofHex proof ≠ []) :
    trim proof ≠ [] := by
  intro hnil
  rw [normalizeProofHex, hnil] at hne
  exact hne rfl

/-! ## From the device to the chain -/

section
variable {body body' : Body} {receivedAt : JsString} {nc : NcResult} {line : DeviceRequest}

/-- What reaches the device is the canonical payload. -/
theorem signInference_request (h : signInference body = .request line) :
    isTimestampValid body.timestamp = some true ∧ canonicalPayload body = some line.input := by
  unfold signInference at h
  split at h
  · cases h
  · split at h
    · cases h
    · rename_i ok hok
      split at h
      · cases h
      · rename_i hvalid
        split at h
        · rename_i payload hpayload
          cases h
          rw [Bool.not_eq_true', Bool.not_eq_false] at hvalid
          exact ⟨hvalid ▸ hok, hpayload⟩
        · cases h

/-- **A reply with a digest is answered with that digest.** -/
theorem handleSign_replied (hsign : signInference body = .request line) {output : JsString}
    (h : Replied nc output) (hne : output ≠ []) :
    ∃ record, handleSign receivedAt (some body) nc =
      .answered record { code := 200, hash := .str output } := by
  obtain ⟨parsed, hparse, herror, hout⟩ := h.stdout
  have hraw : trim (nc.stdout.getD []) ≠ [] := by
    intro hnil
    rw [hnil] at hparse
    cases hparse
  have htruthy : truthy (.str output) = true := by
    cases output with
    | nil => exact absurd rfl hne
    | cons u r => rfl
  have hnull : parsed ≠ .null := by
    rintro rfl
    cases hout
  unfold handleSign
  simp only [hsign, h.status, ne_eq, not_true_eq_false, if_false, hraw, hparse, herror, hout,
    htruthy, if_true, normalizeProof_str, Bool.false_eq_true]
  exact ⟨_, rfl⟩

/-- **What was signed is matched** to the canonical payload, in every spelling of the digest. -/
theorem submit_of_signed (hsign : signInference body = .request line)
    (hreply : Replied nc (hmacHex DEVICE_SECRET line.input)) (hsame : SameFields body body')
    (hhash : isText body.imageHash = true) {proof : JsString} (hproof : body'.proof = .str proof)
    (hspelling : Spelling (hmacHex DEVICE_SECRET line.input) proof) :
    (∃ record, handleSign receivedAt (some body) nc =
        .answered record { code := 200, hash := .str (hmacHex DEVICE_SECRET line.input) }) ∧
      canonicalPayload body' = some line.input ∧ submit body' = .matched line.input := by
  obtain ⟨hvalid, hpayload⟩ := signInference_request hsign
  have hdigest : hmacHex DEVICE_SECRET line.input ≠ [] := by
    intro hnil
    have hlen := congrArg List.length hnil
    rw [hmacHex, hexText_length, hmac_length] at hlen
    cases hlen
  have hnorm : normalizeProofHex proof = hmacHex DEVICE_SECRET line.input :=
    normalizeProofHex_spelling hspelling
  have hpayload' : canonicalPayload body' = some line.input := by
    rw [← hpayload]
    unfold canonicalPayload sealedSkyTextFromBody
    rw [hsame.sealedSkyText, hsame.result, hsame.timestamp, hsame.imageHash]
  have htext : isText body'.proof = true :=
    isText_iff.2 ⟨proof, hproof, trim_of_normalized (hnorm ▸ hdigest)⟩
  have hauth : authenticatedPayload body' = some line.input := by
    rw [authenticatedPayload, if_pos, hpayload']
    exact ⟨hsame.timestamp ▸ hvalid, hsame.imageHash ▸ hhash, htext⟩
  refine ⟨handleSign_replied hsign hreply hdigest, hpayload', ?_⟩
  obtain ⟨proof', hproof', hsubmit⟩ := submit_of_authenticatedPayload hauth
  rw [hproof] at hproof'
  cases hproof'
  rw [hsubmit, matchProof, hnorm]
  exact if_pos rfl

end

/-- A reply with this digest, as the device writes it. -/
def ncReply (digest : JsString) : NcResult :=
  ⟨some 0, some (js "\x7b\"Output\":\"" ++ (digest ++ js "\"\x7d\n")), some []⟩

/-- A digest in capitals behind `0X`. -/
def capitals (digest : JsString) : JsString :=
  js " " ++ (js "0X" ++ digest.map (fun u => if 97 ≤ u.toNat then u - 32 else u) ++ js "\n")

theorem spelling_capitals {digest : JsString} (h : ∀ u ∈ digest,
    lowerUnit (if 97 ≤ u.toNat then u - 32 else u) = u) : Spelling digest (capitals digest) := by
  refine ⟨js " ", js "0X", _, js "\n", rfl, by decide, by simp, ?_, by decide⟩
  rw [List.map_map]
  exact (List.map_congr_left fun u hu => h u hu).trans (List.map_id' digest)

theorem submit_of_signed_capitals : ∃ line, signInference (form "a" "1" "b") = .request line ∧
    (∃ record, handleSign (js "2026-05-09T12:00:00.000Z") (some (form "a" "1" "b"))
        (ncReply (hmacHex DEVICE_SECRET line.input)) =
          .answered record { code := 200, hash := .str (hmacHex DEVICE_SECRET line.input) }) ∧
      canonicalPayload { form "a" "1" "b" with
        proof := .str (capitals (hmacHex DEVICE_SECRET line.input)) } = some line.input ∧
      submit { form "a" "1" "b" with
        proof := .str (capitals (hmacHex DEVICE_SECRET line.input)) } = .matched line.input := by
  have hsign : signInference (form "a" "1" "b") =
      .request ⟨js "SignInference", js "a|1|b"⟩ := by decide +kernel
  have hparse : (parse (trim ((ncReply (hmacHex DEVICE_SECRET (js "a|1|b"))).stdout.getD []))).map
      (fun v => (truthy (v.get (js "Error")), (v.get (js "Output")).str?)) =
        some (false, some (hmacHex DEVICE_SECRET (js "a|1|b"))) := by decide +kernel
  have hletters : ∀ u ∈ hmacHex DEVICE_SECRET (js "a|1|b"),
      lowerUnit (if 97 ≤ u.toNat then u - 32 else u) = u := by decide +kernel
  generalize hline : (⟨js "SignInference", js "a|1|b"⟩ : DeviceRequest) = line at hsign
  have hinput : js "a|1|b" = line.input := hline ▸ rfl
  rw [hinput] at hparse hletters
  obtain ⟨parsed, hparsed, hfields⟩ := Option.map_eq_some_iff.1 hparse
  obtain ⟨herror, hout⟩ := Prod.mk.inj hfields
  have houtput : parsed.get (js "Output") = .str (hmacHex DEVICE_SECRET line.input) := by
    cases hget : parsed.get (js "Output") with
    | str s =>
      rw [hget] at hout
      exact congrArg JsValue.str (Option.some.inj hout)
    | _ =>
      rw [hget] at hout
      cases hout
  exact ⟨line, hsign, submit_of_signed hsign ⟨rfl, parsed, hparsed, herror, houtput⟩
    ⟨rfl, rfl, rfl, rfl⟩ (by decide) rfl (spelling_capitals hletters)⟩

end SealedSky.Backend
