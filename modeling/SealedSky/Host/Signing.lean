import SealedSky.Backend.Agreement
import SealedSky.Backend.History
import SealedSky.Host.Served

/-!
# The way of a signature

From `POST /sign-inference` through `nc`, the bridge, `RPC.Recv`, the shipped applet and `RPC.Send` back
to the answer, and on to `POST /submit`.

* `serveCall_signInference` — the shipped applet's answer to `SignInference`.
* `signing_path` — what the backend is handed is the HMAC of the payload as `RPC.Recv` spells it, and
  when `/submit` accepts it.
-/
namespace SealedSky.Host

open Js Utf8 Sha256 Backend
open TrustedOs (AppletCall Armory handleBridgeConn encodeReply goString recvResponse)
open TrustedApplet (Mem)

/-! ## The shipped applet -/

theorem hexLower_ascii (bs : List UInt8) : ∀ c ∈ hexLower bs, c.toNat < 0x80 ∧
    ¬ TrustedOs.Escaped c ∧ ∀ u ∈ units c, isSpace u = false := by
  have hdigit : ∀ n < 16, (hexDigit n).toNat < 0x80 ∧ ¬ TrustedOs.Escaped (hexDigit n) ∧
      ∀ u ∈ units (hexDigit n), isSpace u = false := by decide
  intro c hc
  obtain ⟨b, -, hmem⟩ := List.mem_flatMap.1 hc
  have hb := b.toNat_lt
  simp only [List.mem_cons, List.not_mem_nil, or_false] at hmem
  rcases hmem with rfl | rfl
  · exact hdigit _ (by omega)
  · exact hdigit _ (by omega)

theorem hexLower_units (bs : List UInt8) : (hexLower bs).flatMap units = hexText bs := by
  have hdigit : ∀ n < 16, units (hexDigit n) = [UInt16.ofNat (hexDigit n).toNat] := by decide
  unfold hexLower hexText
  rw [List.flatMap_assoc]
  refine List.flatMap_congr fun b _ => ?_
  have hb := b.toNat_lt
  simp only [List.flatMap_cons, List.flatMap_nil, hdigit _ (show b.toNat / 16 < 16 by omega),
    hdigit _ (show b.toNat % 16 < 16 by omega)]
  rfl

/-- **`SignInference` as the Trusted OS sees it**: the digest of the input as it is spelled in the
`RPC.Recv` response. -/
theorem serveCall_signInference (ack : Mem Unit → AppletCall → List UInt8) (mem : Mem Unit)
    {input : String} (hfits : (recvResponse ⟨"SignInference", input⟩).length ≤ 4096) :
    ∃ mem', serveCall TrustedApplet.handle ack mem ⟨"SignInference", input⟩ = some (mem',
      String.ofList (hexLower (hmac TrustedApplet.DEVICE_SECRET (encode (goString input))))) := by
  have hrec := TrustedOs.received_of_fits hfits
  have hmethod : encode (goString "SignInference") = bytes "SignInference" := by decide
  have hinv : TrustedOs.invoked (recvResponse ⟨"SignInference", input⟩) mem =
      some ⟨bytes "SignInference", encode (goString input)⟩ := by
    have hne : bytes "SignInference" ≠ bytes "__exit" := by decide
    rw [TrustedOs.invoked_eq, hrec, hmethod, if_neg hne]
  obtain ⟨turn, ht⟩ := TrustedOs.serveTurn_handle _ (ack mem ⟨"SignInference", input⟩) mem hinv
  have hreq := (TrustedOs.serveTurn_invoked ht).symm.trans hinv
  rw [Option.some.injEq] at hreq
  have hout := TrustedOs.serveTurn_signInference ht (by rw [hreq])
  rw [hreq] at hout
  have hascii : ∀ c ∈ hexLower (hmac TrustedApplet.DEVICE_SECRET (encode (goString input))),
      c.toNat < 0x80 := fun c hc => (hexLower_ascii _ c hc).1
  have hlen : turn.output.length = 64 := by
    rw [hout, encode_length_ascii hascii, hexLower, List.length_flatMap]
    simp [hmac_length]
  have hmessage := fullMessage_length_le turn.output
  refine ⟨turn.mem, ?_⟩
  rw [serveCall_of_turn ht (by omega), hout, TrustedOs.asciiText_encode hascii]

/-! ## The backend -/

/-- `spawnSync("nc", …)` with `encoding: "utf8"` when the connection went through (server.js:467). -/
def ncResult (written : List UInt8) : NcResult := ⟨some 0, some (fileText written), some []⟩

/-- `POST /sign-inference` against the device: the device and the answer. -/
def signRequest (ack : Mem Unit → AppletCall → List UInt8) (d : Armory (Mem Unit))
    (receivedAt : JsString) (body : Body) : Option (Armory (Mem Unit) × Reached) :=
  match signInference body with
  | .request line =>
    (handleBridgeConn (serveCall TrustedApplet.handle ack) d
      (utf8 (requestLine line.method line.input))).map fun out =>
        (out.armory, handleSign receivedAt (some body) (ncResult out.written))
  | _ => some (d, handleSign receivedAt (some body) ⟨none, none, none⟩)

/-- A reply without white space is read as `/sign-inference` reads it. -/
theorem replied_encodeReply (cs : List Char) (hspace : ∀ c ∈ cs, ¬ TrustedOs.Escaped c ∧
    ∀ u ∈ units c, isSpace u = false) :
    Replied (ncResult (encodeReply ⟨String.ofList cs, ""⟩)) (cs.flatMap units) := by
  have hplain : goString (String.ofList cs) = cs := by
    rw [TrustedOs.goString_plain, String.toList_ofList]
    intro c hc
    rw [String.toList_ofList] at hc
    exact (hspace c hc).1
  have hread : fileText (encodeReply ⟨String.ofList cs, ""⟩) =
      (TrustedOs.BridgeReply.text ⟨String.ofList cs, ""⟩).flatMap units ++ [10] := by
    rw [fileText, encodeReply, decodeLossy_encode, List.flatMap_append]
    rfl
  have hnospace : ∀ u ∈ (TrustedOs.BridgeReply.text ⟨String.ofList cs, ""⟩).flatMap units,
      isSpace u = false := by
    have hhead : ∀ u ∈ "\x7b\"Output\":".toList.flatMap units, isSpace u = false := by decide
    have htail : ∀ u ∈ "\x7d".toList.flatMap units, isSpace u = false := by decide
    have hquote : ∀ u ∈ units '"', isSpace u = false := by decide
    intro u hu
    unfold TrustedOs.BridgeReply.text TrustedOs.BridgeReply.errorText TrustedOs.goQuoted at hu
    simp only [if_true, List.flatMap_append, List.flatMap_cons, List.flatMap_nil, List.append_nil,
      List.nil_append, hplain, List.mem_append] at hu
    rcases hu with hu | (hu | hu | hu) | hu
    · exact hhead u hu
    · exact hquote u hu
    · obtain ⟨c, hc, hcu⟩ := List.mem_flatMap.1 hu
      exact (hspace c hc).2 u hcu
    · exact hquote u hu
    · exact htail u hu
  have htrim : trim (fileText (encodeReply ⟨String.ofList cs, ""⟩)) =
      (TrustedOs.BridgeReply.text ⟨String.ofList cs, ""⟩).flatMap units := by
    have hno : ∀ u ∈ ([] : JsString), isSpace u = true := fun u hu => absurd hu List.not_mem_nil
    have hbreak : ∀ u ∈ ([10] : JsString), isSpace u = true := by decide
    rw [hread]
    exact (trim_between hno hnospace hbreak).trans (trim_of_noSpace hnospace)
  refine ⟨rfl, .obj (replyObject ⟨String.ofList cs, ""⟩), ?_, rfl, ?_⟩
  · exact (congrArg parse htrim).trans (parse_text ⟨String.ofList cs, ""⟩)
  · change JsValue.str ((String.ofList cs).toList.flatMap units) = _
    rw [String.toList_ofList]

/-- What the backend is handed for a payload. -/
def deviceDigest (payload : JsString) : JsString :=
  hexText (hmac Backend.DEVICE_SECRET (encode (goString (String.ofList (toWellFormed payload)))))

/-- A payload without anything to escape is signed as it is. -/
theorem deviceDigest_plain {payload : JsString}
    (h : TrustedOs.Plain (String.ofList (toWellFormed payload))) :
    deviceDigest payload = hmacHex Backend.DEVICE_SECRET payload := by
  rw [deviceDigest, TrustedOs.goString_plain h, String.toList_ofList]
  rfl

section
variable {body body' : Body} {receivedAt : JsString} {line : DeviceRequest}

theorem deviceDigest_ne_nil (payload : JsString) : deviceDigest payload ≠ [] := by
  intro hnil
  have hlen := congrArg List.length hnil
  rw [deviceDigest, hexText_length, hmac_length] at hlen
  cases hlen

/-- A digest is matched to a payload exactly if it is the payload's. -/
theorem matchProof_self {payload digest : JsString} (hnorm : normalizeProofHex digest = digest) :
    matchProof payload digest = .matched payload ↔
      digest = hmacHex Backend.DEVICE_SECRET payload := by
  have hlonger : legacyPayload payload ≠ payload := by
    intro h
    have hlen := congrArg List.length h
    have hprefix : LEGACY_CONTEXT_PREFIX.length = 16 := by decide
    rw [legacyPayload, List.length_append, hprefix, List.length_cons] at hlen
    omega
  unfold matchProof
  rw [hnorm]
  generalize hmacHex Backend.DEVICE_SECRET payload = canonical
  generalize hmacHex Backend.DEVICE_SECRET (legacyPayload payload) = legacy
  by_cases heq : digest = canonical
  · simp [heq]
  · by_cases heq' : digest = legacy
    · simp [heq, ← heq', hlonger]
    · simp [heq, heq']

/-- A blank image hash is refused. -/
theorem submit_blank (h : isText body.imageHash = false) (payload : JsString) :
    submit body ≠ .matched payload := by
  unfold submit
  cases isTimestampValid body.timestamp with
  | none => simp
  | some ok => simp [h]

/-- A submission of what was signed, with what the device returned for a proof. -/
theorem submit_deviceDigest (hsign : signInference body = .request line)
    (hsame : SameFields body body') (hproof : body'.proof = .str (deviceDigest line.input)) :
    submit body' = .matched line.input ↔ isText body.imageHash = true ∧
      deviceDigest line.input = hmacHex Backend.DEVICE_SECRET line.input := by
  by_cases hhash : isText body.imageHash = true
  swap
  · have hblank : isText body'.imageHash = false := hsame.imageHash ▸ eq_false_of_ne_true hhash
    exact iff_of_false (submit_blank hblank _) fun h => hhash h.1
  rw [and_iff_right hhash]
  obtain ⟨hvalid, hpayload⟩ := signInference_request hsign
  have hnorm : normalizeProofHex (deviceDigest line.input) = deviceDigest line.input :=
    normalizeProofHex_hexText _
  have hpayload' : canonicalPayload body' = some line.input := by
    rw [← hpayload]
    unfold canonicalPayload sealedSkyTextFromBody
    rw [hsame.sealedSkyText, hsame.result, hsame.timestamp, hsame.imageHash]
  have htext : isText body'.proof = true :=
    isText_iff.2 ⟨_, hproof, trim_of_normalized (by rw [hnorm]; exact deviceDigest_ne_nil _)⟩
  have hauth : authenticatedPayload body' = some line.input := by
    rw [authenticatedPayload, if_pos, hpayload']
    exact ⟨hsame.timestamp ▸ hvalid, hsame.imageHash ▸ hhash, htext⟩
  obtain ⟨proof, hproof', hsubmit⟩ := submit_of_authenticatedPayload hauth
  rw [hproof] at hproof'
  cases hproof'
  rw [hsubmit]
  exact matchProof_self hnorm

/-- **From a request for a signature to its submission.** When the response to `RPC.Recv` fits the
applet's buffer, the backend is handed the digest of the payload as that response spells it; a
submission with it is accepted exactly if the image hash is not blank, which is not checked when it is
signed, and that is the digest of the payload itself, as it is when nothing in the payload needed
escaping. -/
theorem signing_path (ack : Mem Unit → AppletCall → List UInt8) (d : Armory (Mem Unit))
    (hsign : signInference body = .request line)
    (hfits : (recvResponse ⟨"SignInference",
      String.ofList (toWellFormed line.input)⟩).length ≤ 4096) :
    (∃ d' record, d'.sd = d.sd ∧ signRequest ack d receivedAt body =
        some (d', .answered record { code := 200, hash := .str (deviceDigest line.input) })) ∧
      (∀ body', SameFields body body' → body'.proof = .str (deviceDigest line.input) →
        (submit body' = .matched line.input ↔ isText body.imageHash = true ∧
          deviceDigest line.input = hmacHex Backend.DEVICE_SECRET line.input)) ∧
      (TrustedOs.Plain (String.ofList (toWellFormed line.input)) →
        deviceDigest line.input = hmacHex Backend.DEVICE_SECRET line.input) := by
  refine ⟨?_, fun body' hsame hproof => submit_deviceDigest hsign hsame hproof, deviceDigest_plain⟩
  have hmethod : line.method = js "SignInference" := by
    unfold signInference at hsign
    split at hsign
    · cases hsign
    · split at hsign
      · cases hsign
      · split at hsign
        · cases hsign
        · split at hsign
          · cases hsign
            rfl
          · cases hsign
  have hname : String.ofList (toWellFormed (js "SignInference")) = "SignInference" := by decide
  have hreq := decodeRequest_requestLine line.method line.input
  rw [hmethod, hname] at hreq
  have hsentinel : "SignInference" ≠ "__upload" := by decide
  obtain ⟨mem', hserve⟩ := serveCall_signInference ack d.applet hfits
  have hreplied := replied_encodeReply (hexLower (hmac TrustedApplet.DEVICE_SECRET
      (encode (goString (String.ofList (toWellFormed line.input)))))) fun c hc =>
    (hexLower_ascii _ c hc).2
  rw [hexLower_units] at hreplied
  obtain ⟨record, hanswer⟩ : ∃ record, handleSign receivedAt (some body) _ =
      .answered record { code := 200, hash := .str (deviceDigest line.input) } :=
    handleSign_replied hsign hreplied (deviceDigest_ne_nil line.input)
  refine ⟨⟨mem', d.sd⟩, record, rfl, ?_⟩
  unfold signRequest
  rw [hsign]
  simp only
  rw [hmethod, TrustedOs.handleBridgeConn_call hreq (if_neg hsentinel), hserve]
  exact congrArg (fun r => some (_, r)) hanswer

end

/-- What is signed for `a`, `1` and `b` is accepted with them. -/
theorem signing_path_genuine : ∃ d' record, d'.sd = none ∧
    signRequest (fun _ _ => []) ⟨.start (), none⟩ (js "now") genuineBody = some (d', .answered record
      { code := 200, hash := .str (hmacHex Backend.DEVICE_SECRET (js "a|1|b")) }) ∧
    submit { genuineBody with proof := .str (hmacHex Backend.DEVICE_SECRET (js "a|1|b")) } =
      .matched (js "a|1|b") := by
  have hform : Accepted (form "a" "1" "b") := accepted_form (by decide)
  have htime : isTimestampValid genuineBody.timestamp = some true := hform.timestamp
  have hsign : signInference genuineBody = .request ⟨js "SignInference", js "a|1|b"⟩ := by
    unfold signInference
    rw [htime]
    decide
  have hplain : TrustedOs.Plain (String.ofList (toWellFormed (js "a|1|b"))) := by decide
  obtain ⟨⟨d', record, hcard, hanswer⟩, haccepted, hdigest⟩ :=
    signing_path (fun _ _ => []) ⟨.start (), none⟩ hsign (by decide +kernel)
  have hsame := hdigest hplain
  have hmatched := (haccepted
    { genuineBody with proof := .str (hmacHex Backend.DEVICE_SECRET (js "a|1|b")) }
    ⟨rfl, rfl, rfl, rfl⟩ (by rw [hsame])).2 ⟨by decide, hsame⟩
  rw [hsame] at hanswer
  exact ⟨d', record, hcard, hanswer, hmatched⟩

end SealedSky.Host
