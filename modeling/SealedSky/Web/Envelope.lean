import SealedSky.Web.Queue
import SealedSky.Web.Symmetric

/-!
# Envelopes (`sealed-sky-web/src/lib/envelope.ts`, `envelope-ctrng.ts`)

An envelope is a JSON object in UTF-8 and base64. Reading one checks its version, its scheme and its
chain or beacon, and throws what each of them is not; the other properties are taken as they come.

* `unpackCtrng_packCtrng` — what was packed is unpacked, but for numbers that JSON does not have.
* `envelopes_apart` — each decoder takes the blobs of its own encoder and throws on those of the other.
-/
namespace SealedSky.Web

open Js Fallible

/-! ## Blobs -/

/-- `bytesToB64(new TextEncoder().encode(JSON.stringify(payload)))`. -/
def encodeBlob (payload : JsValue) : JsString := bytesToB64 (utf8 (jsonText payload))

/-- `JSON.parse(new TextDecoder().decode(b64ToBytes(blob.trim())))`. -/
def decodeBlob (blob : JsString) : Result JsValue := do
  let bytes ← b64ToBytes (.str (trim blob))
  ofEngine (parse (textDecode bytes))

/-- `payload[k]`, the first that is read of it: `null` has no properties. -/
def property (payload : JsValue) (k : JsString) : Result JsValue :=
  match payload with
  | .null => .error .engine
  | .undefined => .error .engine
  | v => .ok (v.get k)

/-- `v === x`. -/
def isNumber (v : JsValue) (x : ℚ) : Bool :=
  match v with
  | .num y => y == ofRat x
  | _ => false

/-- A check that throws with a text around the value that failed it. -/
def check (ok : Bool) (before : JsString) (v : JsValue) (after : JsString) : Result Unit :=
  if ok then .ok ()
  else (ofEngine v.toText).bind fun t => .error (.error (before ++ t ++ after))

/-- The properties that are set where a name is given. -/
def names (senderEns recipientEns : Option JsString) : List (JsString × JsValue) :=
  (match senderEns with
    | some s => if s = [] then [] else [(js "sender_ens", .str s)]
    | none => []) ++
  match recipientEns with
  | some s => if s = [] then [] else [(js "recipient_ens", .str s)]
  | none => []

/-! ## drand -/

/-- drand.ts:3. -/
def CHAIN_HASH : JsString :=
  js "52db9ba70e0cc0f6eaf7803dd07447a1f5477735fd3f661792ba94600c84e971"

def CHAIN_NAME : JsString := js "quicknet"

/-- envelope.ts:4. -/
def ENVELOPE_VERSION : ℚ := 1

def BACKEND_TAG : JsString := js "timelock"

/-- envelope.ts:18. -/
def pack (round : JsNum) (ct : List UInt8) (senderEns recipientEns : Option JsString) : JsString :=
  encodeBlob (.obj
    ([(js "v", .num (ofRat ENVELOPE_VERSION)),
      (js "chain", .str CHAIN_NAME),
      (js "chain_hash", .str CHAIN_HASH),
      (js "round", .num round),
      (js "backend", .str BACKEND_TAG),
      (js "ct", .str (bytesToB64 ct))] ++ names senderEns recipientEns))

/-- envelope.ts:38. -/
structure ParsedEnvelope where
  round : JsValue
  ct : List UInt8
  payload : JsValue

/-- envelope.ts:44. -/
def unpack (blob : JsString) : Result ParsedEnvelope := do
  let payload ← decodeBlob blob
  let v ← property payload (js "v")
  check (isNumber v ENVELOPE_VERSION) (js "unsupported envelope version: ") v []
  let chain := payload.get (js "chain_hash")
  check (chain.str? == some CHAIN_HASH) (js "envelope chain ") chain
    (js " != quicknet (" ++ CHAIN_HASH ++ js ")")
  let ct ← b64ToBytes (payload.get (js "ct"))
  .ok { round := payload.get (js "round"), ct, payload }

/-! ## cTRNG -/

/-- ctrng.ts:1. -/
def CTRNG_IPNS_KEY : JsString := js "k2k4r8lvomw737sajfnpav0dpeernugnryng50uheyk1k39lursmn09f"

/-- envelope-ctrng.ts:4. -/
def CTRNG_ENVELOPE_VERSION : ℚ := 1

def CTRNG_SCHEME : JsString := js "ctrng-cr-v1"

def CTRNG_BEACON_NAME : JsString := js "spacecomputer-ctrng"

def optionalNumber : Option JsNum → JsValue
  | none => .undefined
  | some x => .num x

/-- The payload of envelope-ctrng.ts:36. -/
def ctrngPayload (unlockUnix : JsNum) (targetSequence : Option JsNum) (ct iv : List UInt8)
    (commit : JsString) (senderEns recipientEns : Option JsString) : List (JsString × JsValue) :=
  [(js "v", .num (ofRat CTRNG_ENVELOPE_VERSION)),
    (js "scheme", .str CTRNG_SCHEME),
    (js "beacon", .str CTRNG_BEACON_NAME),
    (js "ipns_key", .str CTRNG_IPNS_KEY),
    (js "unlock_unix", .num unlockUnix),
    (js "target_sequence", optionalNumber targetSequence),
    (js "ct", .str (bytesToB64 ct)),
    (js "iv", .str (bytesToB64 iv)),
    (js "commit", .str commit)] ++ names senderEns recipientEns

/-- envelope-ctrng.ts:26. -/
def packCtrng (unlockUnix : JsNum) (targetSequence : Option JsNum) (ct iv : List UInt8)
    (commit : JsString) (senderEns recipientEns : Option JsString) : JsString :=
  encodeBlob (.obj (ctrngPayload unlockUnix targetSequence ct iv commit senderEns recipientEns))

/-- envelope-ctrng.ts:52. Only `ct` and `iv` are converted, so the others are any values. -/
structure ParsedCtrngEnvelope where
  unlockUnix : JsValue
  targetSequence : JsValue
  ct : List UInt8
  iv : List UInt8
  commit : JsValue
  payload : JsValue

/-- envelope-ctrng.ts:61. -/
def unpackCtrng (blob : JsString) : Result ParsedCtrngEnvelope := do
  let payload ← decodeBlob blob
  let v ← property payload (js "v")
  check (isNumber v CTRNG_ENVELOPE_VERSION) (js "unsupported cTRNG envelope version: ") v []
  let scheme := payload.get (js "scheme")
  check (scheme.str? == some CTRNG_SCHEME) (js "unexpected scheme: ") scheme []
  let ipnsKey := payload.get (js "ipns_key")
  check (ipnsKey.str? == some CTRNG_IPNS_KEY) (js "envelope IPNS key mismatch: ") ipnsKey []
  let ct ← b64ToBytes (payload.get (js "ct"))
  let iv ← b64ToBytes (payload.get (js "iv"))
  .ok
    { unlockUnix := payload.get (js "unlock_unix")
      targetSequence := payload.get (js "target_sequence")
      ct, iv
      commit := payload.get (js "commit")
      payload }

/-- share.ts:18. -/
def peekBackend (envelope : JsString) : Result Backend := do
  let payload ← decodeBlob envelope
  let scheme ← property payload (js "scheme")
  if scheme.str? = some (js "ctrng-cr-v1") then .ok .ctrng
  else if (payload.get (js "chain_hash")).str?.isSome then .ok .drand
  else .error (.error (js "unrecognised envelope shape"))

/-! ## What was packed is unpacked -/

theorem noSpace_btoa (bs : List UInt8) : ∀ u ∈ btoa bs, isSpace u = false := by
  have hplain : ∀ n < 64, isSpace (b64Unit n) = false := by decide
  intro u hu
  rcases List.mem_append.1 hu with hu | hu
  · obtain ⟨n, hn, rfl⟩ := mem_b64Units hu
    exact hplain n hn
  · rw [List.eq_of_mem_replicate hu]
    decide

theorem b64ToBytes_bytesToB64 (bs : List UInt8) : b64ToBytes (.str (bytesToB64 bs)) = .ok bs := by
  rw [b64ToBytes, bytesToB64, JsValue.toText_str, Option.bind_some, atob_btoa]
  rfl

/-- **A blob is decoded to what JSON keeps of its object.** -/
theorem decodeBlob_encodeBlob (ps : List (JsString × JsValue)) :
    decodeBlob (encodeBlob (.obj ps)) = .ok (asJson (.obj ps)) := by
  have htext : textDecode (utf8 (jsonText (.obj ps))) = jsonText (.obj ps) := by
    refine textDecode_utf8 (wellFormed_jsonText _) ?_
    rw [jsonText]
    exact fun hmark => absurd (Option.some.inj hmark) (by decide)
  unfold decodeBlob
  rw [encodeBlob, bytesToB64, trim_of_noSpace (noSpace_btoa _), ← bytesToB64,
    b64ToBytes_bytesToB64]
  exact (congrArg (fun t => ofEngine (parse t)) htext).trans
    (congrArg ofEngine (parse_jsonText _))

/-- No object has an empty blob. -/
theorem blob_ne_nil (ps : List (JsString × JsValue)) : utf8 (jsonText (.obj ps)) ≠ [] := by
  intro hnil
  have hread := decodeBlob_encodeBlob ps
  rw [encodeBlob, hnil] at hread
  cases hread

theorem property_asJson (ps : List (JsString × JsValue)) (k : JsString) :
    property (asJson (.obj ps)) k = .ok ((asJson (.obj ps)).get k) := by
  rw [asJson]
  rfl

theorem check_true {ok : Bool} (h : ok = true) (before : JsString) (v : JsValue)
    (after : JsString) : check ok before v after = .ok () := if_pos h

/-- Both versions. -/
theorem propJson_one : propJson (.num (ofRat 1)) = .num (ofRat 1) := by
  have hfin : (ofRat 1).isFinite = true := by decide +kernel
  simp [propJson, isUndefined, asJson, hfin]

section
variable {unlockUnix : JsNum} {targetSequence : Option JsNum} {ct iv : List UInt8}
  {commit : JsString} {senderEns recipientEns : Option JsString}

theorem keys_names (s r : Option JsString) :
    (keys (names s r)).Sublist [js "sender_ens", js "recipient_ens"] := by
  have hone : ∀ (k : JsString) (o : Option JsString),
      (keys (match o with
        | some s => if s = [] then [] else [(k, JsValue.str s)]
        | none => [])).Sublist [k] := by
    intro k o
    cases o with
    | none => exact List.nil_sublist _
    | some s =>
      simp only
      split
      · exact List.nil_sublist _
      · exact List.Sublist.refl _
  unfold names keys
  rw [List.map_append]
  exact (hone _ s).append (hone _ r)

theorem nodup_ctrngPayload (unlockUnix : JsNum) (targetSequence : Option JsNum)
    (ct iv : List UInt8) (commit : JsString) (senderEns recipientEns : Option JsString) :
    (keys (ctrngPayload unlockUnix targetSequence ct iv commit senderEns recipientEns)).Nodup := by
  have hnd : ([js "v", js "scheme", js "beacon", js "ipns_key", js "unlock_unix",
      js "target_sequence", js "ct", js "iv", js "commit"] ++
        [js "sender_ens", js "recipient_ens"]).Nodup := by decide
  unfold ctrngPayload keys
  rw [List.map_append]
  exact hnd.sublist ((List.Sublist.refl _).append (keys_names senderEns recipientEns))

/-- **What was packed is unpacked**: the bytes and the commitment as they are, the numbers as JSON has
them. -/
theorem unpackCtrng_packCtrng :
    unpackCtrng (packCtrng unlockUnix targetSequence ct iv commit senderEns recipientEns) =
      .ok
        { unlockUnix := asJson (.num unlockUnix)
          targetSequence := propJson (optionalNumber targetSequence)
          ct, iv
          commit := .str commit
          payload := asJson (.obj
            (ctrngPayload unlockUnix targetSequence ct iv commit senderEns recipientEns)) } := by
  have hget := get_asJson
    (nodup_ctrngPayload unlockUnix targetSequence ct iv commit senderEns recipientEns)
  have hv : _ = JsValue.num (ofRat CTRNG_ENVELOPE_VERSION) := (hget (js "v")).trans propJson_one
  have hscheme : _ = JsValue.str CTRNG_SCHEME := hget (js "scheme")
  have hkey : _ = JsValue.str CTRNG_IPNS_KEY := hget (js "ipns_key")
  have hct : _ = JsValue.str (bytesToB64 ct) := hget (js "ct")
  have hiv : _ = JsValue.str (bytesToB64 iv) := hget (js "iv")
  have hcommit : _ = JsValue.str commit := hget (js "commit")
  have hunlock : _ = asJson (.num unlockUnix) := hget (js "unlock_unix")
  have htarget : _ = propJson (optionalNumber targetSequence) := hget (js "target_sequence")
  unfold unpackCtrng packCtrng
  simp only [decodeBlob_encodeBlob, property_asJson, ok_bind, hv, hscheme, hkey, hct, hiv,
    hcommit, hunlock, htarget, b64ToBytes_bytesToB64]
  rw [check_true (by decide +kernel), check_true (by decide), check_true (by decide)]
  rfl

theorem peekBackend_packCtrng :
    peekBackend (packCtrng unlockUnix targetSequence ct iv commit senderEns recipientEns) =
      .ok .ctrng := by
  have hscheme : _ = JsValue.str CTRNG_SCHEME := get_asJson
    (nodup_ctrngPayload unlockUnix targetSequence ct iv commit senderEns recipientEns)
    (js "scheme")
  unfold peekBackend packCtrng
  simp only [decodeBlob_encodeBlob, property_asJson, ok_bind, hscheme]
  rfl

/-! ## The two formats side by side -/

/-- The payload of envelope.ts:23. -/
def drandPayload (round : JsNum) (ct : List UInt8) (senderEns recipientEns : Option JsString) :
    List (JsString × JsValue) :=
  [(js "v", .num (ofRat ENVELOPE_VERSION)),
    (js "chain", .str CHAIN_NAME),
    (js "chain_hash", .str CHAIN_HASH),
    (js "round", .num round),
    (js "backend", .str BACKEND_TAG),
    (js "ct", .str (bytesToB64 ct))] ++ names senderEns recipientEns

theorem pack_eq (round : JsNum) (ct : List UInt8) (senderEns recipientEns : Option JsString) :
    pack round ct senderEns recipientEns =
      encodeBlob (.obj (drandPayload round ct senderEns recipientEns)) := rfl

theorem nodup_drandPayload (round : JsNum) (ct : List UInt8)
    (senderEns recipientEns : Option JsString) :
    (keys (drandPayload round ct senderEns recipientEns)).Nodup := by
  have hnd : ([js "v", js "chain", js "chain_hash", js "round", js "backend", js "ct"] ++
      [js "sender_ens", js "recipient_ens"]).Nodup := by decide
  unfold drandPayload keys
  rw [List.map_append]
  exact hnd.sublist ((List.Sublist.refl _).append (keys_names senderEns recipientEns))

/-- White space around a blob is trimmed off. -/
theorem decodeBlob_between {w w' : JsString} (hw : ∀ u ∈ w, isSpace u = true)
    (hw' : ∀ u ∈ w', isSpace u = true) (payload : JsValue) :
    decodeBlob (w ++ (encodeBlob payload ++ w')) = decodeBlob (encodeBlob payload) := by
  have htrim : trim (w ++ (encodeBlob payload ++ w')) = trim (encodeBlob payload) :=
    trim_between hw (noSpace_btoa _) hw'
  unfold decodeBlob
  rw [htrim]

/-- What the decoders read of a name, where no name is empty. -/
theorem lookup_names (hs : senderEns ≠ some []) (hr : recipientEns ≠ some []) :
    lookup (names senderEns recipientEns) (js "sender_ens") = optional senderEns ∧
      lookup (names senderEns recipientEns) (js "recipient_ens") = optional recipientEns := by
  have hone : ∀ (k : JsString) (o : Option JsString), o ≠ some [] →
      (match o with
        | some s => if s = [] then [] else [(k, JsValue.str s)]
        | none => []) = o.toList.map fun s => (k, JsValue.str s) := by
    intro k o ho
    cases o with
    | none => rfl
    | some s => exact if_neg fun hs => ho (congrArg some hs)
  unfold names
  rw [hone _ _ hs, hone _ _ hr]
  cases senderEns <;> cases recipientEns <;> exact ⟨rfl, rfl⟩

theorem lookup_names_other (senderEns recipientEns : Option JsString) {k : JsString}
    (hk : k ∉ [js "sender_ens", js "recipient_ens"]) :
    lookup (names senderEns recipientEns) k = .undefined :=
  lookup_of_notMem fun hmem => hk ((keys_names senderEns recipientEns).subset hmem)

/-- The names that a payload carries. -/
structure Names (payload : JsValue) (senderEns recipientEns : Option JsString) : Prop where
  sender : payload.get (js "sender_ens") = optional senderEns
  recipient : payload.get (js "recipient_ens") = optional recipientEns

/-- A blob that `unpack` reads as what was packed, and that no one takes for a cTRNG envelope. -/
structure DrandBlob (blob : JsString) (round : JsNum) (ct : List UInt8)
    (senderEns recipientEns : Option JsString) : Prop where
  unpacked : ∃ payload, unpack blob = .ok ⟨.num round, ct, payload⟩ ∧
    Names payload senderEns recipientEns
  backend : peekBackend blob = .ok .drand
  foreign : unpackCtrng blob = .error (.error (js "unexpected scheme: undefined"))

/-- A blob that `unpackCtrng` reads as what was packed, and that no one takes for a drand envelope. -/
structure CtrngBlob (blob : JsString) (unlockUnix : JsNum) (targetSequence : Option JsNum)
    (ct iv : List UInt8) (commit : JsString) (senderEns recipientEns : Option JsString) : Prop where
  unpacked : ∃ payload, unpackCtrng blob =
      .ok ⟨.num unlockUnix, optionalNumber targetSequence, ct, iv, .str commit, payload⟩ ∧
    Names payload senderEns recipientEns
  backend : peekBackend blob = .ok .ctrng
  foreign : unpack blob = .error (.error
    (js "envelope chain undefined != quicknet (" ++ CHAIN_HASH ++ js ")"))

theorem Names.of_lookup {ps : List (JsString × JsValue)} (hnd : (keys ps).Nodup)
    (hs : lookup ps (js "sender_ens") = optional senderEns)
    (hr : lookup ps (js "recipient_ens") = optional recipientEns) :
    Names (asJson (.obj ps)) senderEns recipientEns :=
  ⟨by rw [get_asJson hnd, hs, QueueItem.propJson_optional],
    by rw [get_asJson hnd, hr, QueueItem.propJson_optional]⟩

theorem propJson_fin (x : Binary64.Double) : propJson (.num (.fin x)) = .num (.fin x) := by
  simp [propJson, isUndefined, asJson, JsNum.isFinite]

/-- A blob of a drand payload that `TextDecoder` and `JSON.parse` take back. -/
theorem unpack_drandPayload {blob : JsString} {round : JsNum} (h : decodeBlob blob =
    .ok (asJson (.obj (drandPayload round ct senderEns recipientEns)))) :
    unpack blob = .ok ⟨asJson (.num round), ct,
        asJson (.obj (drandPayload round ct senderEns recipientEns))⟩ ∧
      peekBackend blob = .ok .drand ∧
      unpackCtrng blob = .error (.error (js "unexpected scheme: undefined")) := by
  have hget := get_asJson (nodup_drandPayload round ct senderEns recipientEns)
  have hv : _ = JsValue.num (ofRat ENVELOPE_VERSION) := (hget (js "v")).trans propJson_one
  have hchain : _ = JsValue.str CHAIN_HASH := hget (js "chain_hash")
  have hscheme : _ = JsValue.undefined := (hget (js "scheme")).trans
    (congrArg propJson (lookup_names_other senderEns recipientEns (by decide)))
  have hround : _ = asJson (.num round) := hget (js "round")
  have hct : _ = JsValue.str (bytesToB64 ct) := hget (js "ct")
  refine ⟨?_, ?_, ?_⟩
  · unfold unpack
    simp only [h, property_asJson, ok_bind, hv, hchain, hround, hct,
      b64ToBytes_bytesToB64]
    rw [check_true (by decide +kernel), check_true (by decide)]
    rfl
  · unfold peekBackend
    simp only [h, property_asJson, ok_bind, hscheme, hchain]
    rfl
  · unfold unpackCtrng
    simp only [h, property_asJson, ok_bind, hv, hscheme]
    rw [check_true (by decide +kernel)]
    rfl

theorem drandBlob {blob : JsString} {round : Binary64.Double} (hs : senderEns ≠ some [])
    (hr : recipientEns ≠ some [])
    (h : decodeBlob blob =
      .ok (asJson (.obj (drandPayload (.fin round) ct senderEns recipientEns)))) :
    DrandBlob blob (.fin round) ct senderEns recipientEns := by
  have hround : asJson (.num (.fin round)) = .num (.fin round) := propJson_fin round
  obtain ⟨hunpack, hpeek, hforeign⟩ := unpack_drandPayload h
  obtain ⟨hsender, hrecipient⟩ := lookup_names hs hr
  rw [hround] at hunpack
  exact ⟨⟨_, hunpack, Names.of_lookup (nodup_drandPayload ..) hsender hrecipient⟩, hpeek, hforeign⟩

theorem ctrngBlob {blob : JsString} {unlockUnix : Binary64.Double}
    {targetSequence : Option Binary64.Double} (hs : senderEns ≠ some [])
    (hr : recipientEns ≠ some [])
    (h : decodeBlob blob = .ok (asJson (.obj (ctrngPayload (.fin unlockUnix)
      (targetSequence.map .fin) ct iv commit senderEns recipientEns)))) :
    CtrngBlob blob (.fin unlockUnix) (targetSequence.map .fin) ct iv commit senderEns
      recipientEns := by
  have hnd := nodup_ctrngPayload (.fin unlockUnix) (targetSequence.map .fin) ct iv commit
    senderEns recipientEns
  have hget := get_asJson hnd
  have hv : _ = JsValue.num (ofRat ENVELOPE_VERSION) := (hget (js "v")).trans propJson_one
  have hscheme : _ = JsValue.str CTRNG_SCHEME := hget (js "scheme")
  have hchain : _ = JsValue.undefined := (hget (js "chain_hash")).trans
    (congrArg propJson (lookup_names_other senderEns recipientEns (by decide)))
  have htarget : propJson (optionalNumber (targetSequence.map .fin)) =
      optionalNumber (targetSequence.map .fin) := by
    cases targetSequence with
    | none => rfl
    | some x => exact propJson_fin x
  obtain ⟨hsender, hrecipient⟩ := lookup_names hs hr
  have hsame : ∀ {α : Type} (read : JsValue → Result α),
      (decodeBlob blob >>= read) = decodeBlob (packCtrng (.fin unlockUnix)
        (targetSequence.map .fin) ct iv commit senderEns recipientEns) >>= read := by
    intro α read
    rw [h, packCtrng, decodeBlob_encodeBlob]
  refine ⟨⟨_, ?_, Names.of_lookup hnd hsender hrecipient⟩, ?_, ?_⟩
  · have hpacked : unpackCtrng (packCtrng (.fin unlockUnix) (targetSequence.map .fin) ct iv commit
        senderEns recipientEns) = _ := unpackCtrng_packCtrng
    rw [htarget] at hpacked
    exact (hsame _).trans hpacked
  · exact (hsame _).trans peekBackend_packCtrng
  · unfold unpack
    simp only [h, property_asJson, ok_bind, hv, hchain]
    rw [check_true (by decide +kernel)]
    rfl

/-- **Each decoder takes the blobs of its own encoder**, also with white space around them, and throws
on those of the other, and `peekBackend` tells which is which. -/
theorem envelopes_apart (round unlockUnix : Binary64.Double)
    (targetSequence : Option Binary64.Double) (ct iv : List UInt8) (commit : JsString)
    {senderEns recipientEns : Option JsString} (hs : senderEns ≠ some [])
    (hr : recipientEns ≠ some []) {w w' : JsString} (hw : ∀ u ∈ w, isSpace u = true)
    (hw' : ∀ u ∈ w', isSpace u = true) :
    DrandBlob (w ++ (pack (.fin round) ct senderEns recipientEns ++ w')) (.fin round) ct senderEns
        recipientEns ∧
      CtrngBlob (w ++ (packCtrng (.fin unlockUnix) (targetSequence.map .fin) ct iv commit senderEns
          recipientEns ++ w')) (.fin unlockUnix) (targetSequence.map .fin) ct iv commit senderEns
        recipientEns := by
  constructor
  · refine drandBlob hs hr ?_
    rw [pack_eq, decodeBlob_between hw hw', decodeBlob_encodeBlob]
  · refine ctrngBlob hs hr ?_
    rw [packCtrng, decodeBlob_between hw hw', decodeBlob_encodeBlob]

theorem envelopes_apart_spaced :
    DrandBlob (js " " ++ (pack (.fin ⟨5, by decide +kernel⟩) [7] (some (js "a.eth")) none ++ js "
"))
        (.fin ⟨5, by decide +kernel⟩) [7] (some (js "a.eth")) none ∧
      CtrngBlob (js " " ++ (packCtrng (.fin ⟨9, by decide +kernel⟩)
          ((some ⟨8, by decide +kernel⟩ : Option Binary64.Double).map .fin) [7] [] (js "c")
          (some (js "a.eth")) none ++ js "
"))
        (.fin ⟨9, by decide +kernel⟩)
        ((some ⟨8, by decide +kernel⟩ : Option Binary64.Double).map .fin) [7] [] (js "c")
        (some (js "a.eth")) none :=
  envelopes_apart _ _ _ _ _ _ (by decide) (by decide) (by decide) (by decide)

end

end SealedSky.Web
