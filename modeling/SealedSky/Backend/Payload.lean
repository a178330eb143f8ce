import SealedSky.Js.Digest
import SealedSky.Js.Value
import SealedSky.Lib.Utf8

/-!
# Signed payloads of the backend (`backend/server.js`)

`/sign-inference` sends `text|timestamp|imageHash` to the device, and `/submit` accepts a proof when
it is the MAC of that payload or of the same payload behind `pothole_detected|`. The fields are not
checked for the delimiter. Everything up to the device and up to the chain is here; the records of
`appendHistory` and the answers are not.

* `submitMatches_iff` — which proofs `/submit` matches.
* `submit_disjoint_iff` — exactly when no proof is matched for two bodies.
* `no_common_proof_of_noBar` — fields without a `|` never share a proof.
-/
namespace SealedSky.Backend

open Js Utf8 Sha256

/-- server.js:51. -/
def DEVICE_SECRET : List UInt8 := bytes "hackathon-demo-key-32bytes!!!!"

def DEFAULT_SEALED_SKY_TEXT : JsString := js "seal_sky_seal_box_text"

def LEGACY_CONTEXT_PREFIX : JsString := js "pothole_detected"

/-- The properties of a request body that the two handlers read. -/
structure Body where
  sealedSkyText : JsValue
  result : JsValue
  timestamp : JsValue
  imageHash : JsValue
  proof : JsValue

/-- server.js:67. -/
def sealedSkyTextFromBody (body : Body) : JsString :=
  let raw :=
    match body.sealedSkyText.str? with
    | some s => s
    | none =>
      match body.result.str? with
      | some s => s
      | none => []
  let trimmed := trim raw
  if trimmed = [] then DEFAULT_SEALED_SKY_TEXT else trimmed

/-- `s.replace(/^0x/i, "")`. -/
def drop0x : JsString → JsString
  | z :: x :: r => if z = 48 ∧ (x = 120 ∨ x = 88) then r else z :: x :: r
  | s => s

/-- `toLowerCase` as far as a comparison with hexadecimal digits can tell: no unit outside `A`..`Z`
becomes a digit or one of `a`..`f`. -/
def lowerUnit (u : UInt16) : UInt16 := if 65 ≤ u.toNat ∧ u.toNat ≤ 90 then u + 32 else u

/-- server.js:81, on a string. Of what `toLowerCase` makes other units of, nothing becomes a digit of a
MAC. -/
def normalizeProofHex (proof : JsString) : JsString := (drop0x (trim proof)).map lowerUnit

/-- `Number.isFinite(Number(timestamp)) || typeof timestamp === "string"`, `none` where it throws. -/
def isTimestampValid (timestamp : JsValue) : Option Bool :=
  timestamp.toNumber.map fun x => x.isFinite || timestamp.str?.isSome

/-- `typeof v === "string" && v.trim().length > 0`. -/
def isText (v : JsValue) : Bool :=
  match v.str? with
  | some s => decide (trim s ≠ [])
  | none => false

/-- `${sealedSkyText}|${timestamp}|${imageHash}`. -/
def canonicalPayload (body : Body) : Option JsString :=
  body.timestamp.toText.bind fun timestamp =>
    body.imageHash.toText.map fun imageHash =>
      sealedSkyTextFromBody body ++ 124 :: (timestamp ++ 124 :: imageHash)

def legacyPayload (canonicalPayload : JsString) : JsString :=
  LEGACY_CONTEXT_PREFIX ++ 124 :: canonicalPayload

/-- How far a submission gets (server.js:306-375): the payload whose MAC the proof is goes on to the
chain. -/
inductive Submission where
  | threw
  | invalidInput
  | invalidProof
  | matched (payload : JsString)
  deriving DecidableEq

/-- `matchedPayload` (server.js:349). -/
def matchProof (canonicalPayload proof : JsString) : Submission :=
  let proofNorm := normalizeProofHex proof
  if proofNorm = hmacHex DEVICE_SECRET canonicalPayload then .matched canonicalPayload
  else if proofNorm = hmacHex DEVICE_SECRET (legacyPayload canonicalPayload) then
    .matched (legacyPayload canonicalPayload)
  else .invalidProof

/-- `POST /submit` (server.js:306). -/
def submit (body : Body) : Submission :=
  match isTimestampValid body.timestamp with
  | none => .threw
  | some ok =>
    if !ok || !isText body.imageHash || !isText body.proof then .invalidInput
    else
      match canonicalPayload body, body.proof.str? with
      | some payload, some proof => matchProof payload proof
      | _, _ => .threw

/-- The canonical payload of a submission that passes the checks of its input (server.js:336). -/
def authenticatedPayload (body : Body) : Option JsString :=
  if isTimestampValid body.timestamp = some true ∧ isText body.imageHash ∧ isText body.proof then
    canonicalPayload body
  else none

/-- What reaches `nc` (server.js:462). -/
structure DeviceRequest where
  method : JsString
  input : JsString
  deriving DecidableEq

inductive Signing where
  | threw
  | invalidInput
  | request (line : DeviceRequest)
  deriving DecidableEq

/-- `POST /sign-inference` up to the device (server.js:435). A blank `imageHash` is accepted here. -/
def signInference (body : Body) : Signing :=
  if body.imageHash.str?.isNone then .invalidInput
  else
    match isTimestampValid body.timestamp with
    | none => .threw
    | some ok =>
      if !ok then .invalidInput
      else
        match canonicalPayload body with
        | some payload => .request ⟨js "SignInference", payload⟩
        | none => .threw

/-! ## What `/submit` matches -/

/-- The checks of `/submit` on the signed fields. -/
structure Accepted (body : Body) : Prop where
  timestamp : isTimestampValid body.timestamp = some true
  imageHash : isText body.imageHash = true

/-- The payloads whose MAC is a proof for the body. -/
def payloads (body : Body) : List JsString :=
  match canonicalPayload body with
  | some payload => [payload, legacyPayload payload]
  | none => []

def SubmitMatches (body : Body) (proof : JsString) : Prop :=
  ∃ payload, submit { body with proof := .str proof } = .matched payload

theorem isText_iff {v : JsValue} : isText v = true ↔ ∃ s, v = .str s ∧ trim s ≠ [] := by
  unfold isText
  cases v with
  | str s => simp [JsValue.str?]
  | _ => simp [JsValue.str?]

/-- The text a field prints, of a field that prints one. -/
def printed (v : JsValue) : JsString := v.toText.getD []

theorem Accepted.canonicalPayload {body : Body} (h : Accepted body) :
    canonicalPayload body = some (sealedSkyTextFromBody body ++
      124 :: (printed body.timestamp ++ 124 :: printed body.imageHash)) := by
  obtain ⟨x, hx, -⟩ := Option.map_eq_some_iff.1 h.timestamp
  obtain ⟨ts, hts⟩ := Option.isSome_iff_exists.1 (JsValue.toText_isSome_of_toNumber hx)
  obtain ⟨ih, hih, -⟩ := isText_iff.1 h.imageHash
  unfold Backend.canonicalPayload printed
  rw [hts, hih, JsValue.toText_str]
  rfl

theorem matchProof_matched {payload proof : JsString} :
    (∃ p, matchProof payload proof = .matched p) ↔
      ∃ p ∈ [payload, legacyPayload payload],
        normalizeProofHex proof = hmacHex DEVICE_SECRET p := by
  unfold matchProof
  by_cases hcanonical : normalizeProofHex proof = hmacHex DEVICE_SECRET payload
  · rw [if_pos hcanonical]
    exact ⟨fun _ => ⟨payload, by simp, hcanonical⟩, fun _ => ⟨payload, rfl⟩⟩
  · rw [if_neg hcanonical]
    by_cases hlegacy : normalizeProofHex proof = hmacHex DEVICE_SECRET (legacyPayload payload)
    · rw [if_pos hlegacy]
      exact ⟨fun _ => ⟨legacyPayload payload, by simp, hlegacy⟩, fun _ => ⟨_, rfl⟩⟩
    · rw [if_neg hlegacy]
      constructor
      · rintro ⟨p, hp⟩
        cases hp
      · rintro ⟨p, hp, heq⟩
        rcases List.mem_pair.1 hp with rfl | rfl
        · exact absurd heq hcanonical
        · exact absurd heq hlegacy

/-- A submission with an authenticated payload stands or falls with its proof. -/
theorem submit_of_authenticatedPayload {body : Body} {payload : JsString}
    (h : authenticatedPayload body = some payload) :
    ∃ proof, body.proof = .str proof ∧ submit body = matchProof payload proof := by
  unfold authenticatedPayload at h
  split at h
  · rename_i hchecks
    obtain ⟨hts, hhash, hproof⟩ := hchecks
    obtain ⟨proof, hproof', -⟩ := isText_iff.1 hproof
    refine ⟨proof, hproof', ?_⟩
    unfold submit
    rw [hproof'] at hproof
    simp only [hts, hhash, hproof', hproof, h, JsValue.str?, Bool.not_true, Bool.or_self,
      Bool.false_eq_true, if_false]
  · cases h

/-- **The proofs of a body** are the MACs of its two payloads, in any case and behind an `0x`. -/
theorem submitMatches_iff {body : Body} {proof : JsString} :
    SubmitMatches body proof ↔ Accepted body ∧ trim proof ≠ [] ∧
      ∃ p ∈ payloads body, normalizeProofHex proof = hmacHex DEVICE_SECRET p := by
  have hproof : isText (.str proof) = true ↔ trim proof ≠ [] := by simp [isText, JsValue.str?]
  have hpayload : canonicalPayload { body with proof := .str proof } = canonicalPayload body := rfl
  unfold SubmitMatches submit
  simp only [hpayload]
  by_cases hok : Accepted body ∧ trim proof ≠ []
  · obtain ⟨hacc, htrim⟩ := hok
    have hcan := hacc.canonicalPayload
    simp only [hacc.timestamp, hacc.imageHash, hproof.2 htrim, Bool.not_true, Bool.or_self,
      Bool.false_eq_true, if_false, hcan, JsValue.str?, payloads]
    rw [matchProof_matched]
    exact ⟨fun h => ⟨hacc, htrim, h⟩, fun h => h.2.2⟩
  · constructor
    · rintro ⟨p, hp⟩
      refine absurd ?_ hok
      cases hts : isTimestampValid body.timestamp with
      | none =>
        rw [hts] at hp
        cases hp
      | some ok =>
        rw [hts] at hp
        simp only at hp
        split at hp
        · cases hp
        · rename_i hchecks
          simp only [Bool.or_eq_true, Bool.not_eq_true', not_or, Bool.not_eq_false] at hchecks
          obtain ⟨⟨hok', hhash⟩, htext⟩ := hchecks
          exact ⟨⟨hok' ▸ hts, hhash⟩, hproof.1 htext⟩
    · rintro ⟨hacc, htrim, -⟩
      exact absurd ⟨hacc, htrim⟩ hok

/-! ## A digest is a proof as it stands -/

theorem digest_plain {bs : List UInt8} {u : UInt16} (h : u ∈ hexText bs) :
    isSpace u = false ∧ u ≠ 120 ∧ u ≠ 88 ∧ lowerUnit u = u := by
  have hall : ∀ u ∈ js "0123456789abcdef",
      isSpace u = false ∧ u ≠ 120 ∧ u ≠ 88 ∧ lowerUnit u = u := by decide
  exact hall u (mem_hexText h)

theorem trim_hexText (bs : List UInt8) : trim (hexText bs) = hexText bs :=
  trim_of_noSpace fun _ hu => (digest_plain hu).1

theorem drop0x_plain {s : JsString} (h : ∀ u ∈ s, u ≠ 120 ∧ u ≠ 88) : drop0x s = s := by
  match s, h with
  | [], _ => rfl
  | [_], _ => rfl
  | z :: x :: r, h =>
    obtain ⟨hx, hX⟩ := h x (by simp)
    rw [drop0x, if_neg fun h => h.2.elim hx hX]

theorem normalizeProofHex_hexText (bs : List UInt8) :
    normalizeProofHex (hexText bs) = hexText bs := by
  have hplain : ∀ u ∈ hexText bs, u ≠ 120 ∧ u ≠ 88 := fun u hu =>
    ⟨(digest_plain hu).2.1, (digest_plain hu).2.2.1⟩
  unfold normalizeProofHex
  rw [trim_hexText, drop0x_plain hplain,
    List.map_congr_left fun u hu => (digest_plain hu).2.2.2, List.map_id']

theorem submitMatches_digest {body : Body} (h : Accepted body) {p : JsString}
    (hp : p ∈ payloads body) : SubmitMatches body (hmacHex DEVICE_SECRET p) := by
  refine submitMatches_iff.2 ⟨h, ?_, p, hp, normalizeProofHex_hexText _⟩
  rw [hmacHex, trim_hexText]
  intro hnil
  have hlen := congrArg List.length hnil
  rw [hexText_length, hmac_length] at hlen
  cases hlen

/-! ## Rows of pieces -/

/-- A text cut at every `|`, as the MAC sees it. -/
def pieces (s : JsString) : List (List Char) := (toWellFormed s).splitOn '|'

/-- The pieces of the signed fields in one row. -/
def row (body : Body) : List (List Char) :=
  pieces (sealedSkyTextFromBody body) ++
    (pieces (printed body.timestamp) ++ pieces (printed body.imageHash))

theorem pieces_bar (a b : JsString) : pieces (a ++ 124 :: b) = pieces a ++ pieces b := by
  unfold pieces
  rw [toWellFormed_append (by decide) (by decide)]
  exact List.splitOn_append_cons_self _ _

theorem utf8_eq_iff {a b : JsString} : utf8 a = utf8 b ↔ pieces a = pieces b := by
  constructor
  · intro h
    rw [pieces, encode_injective h, pieces]
  · intro h
    have hjoin : ∀ cs : List Char, ['|'].intercalate (cs.splitOn '|') = cs := fun _ =>
      List.intercalate_splitOn '|'
    have h : toWellFormed a = toWellFormed b := by
      rw [← hjoin (toWellFormed a), ← hjoin (toWellFormed b)]
      exact congrArg _ h
    rw [utf8, h, utf8]

theorem pieces_legacy (payload : JsString) :
    pieces (legacyPayload payload) = "pothole_detected".toList :: pieces payload := by
  have hprefix : pieces LEGACY_CONTEXT_PREFIX = ["pothole_detected".toList] := by decide
  rw [legacyPayload, pieces_bar, hprefix]
  rfl

theorem Accepted.payloads {body : Body} (h : Accepted body) :
    ∃ payload, payloads body = [payload, legacyPayload payload] ∧ pieces payload = row body := by
  refine ⟨_, by rw [Backend.payloads, h.canonicalPayload], ?_⟩
  rw [pieces_bar, pieces_bar]
  rfl

/-- The rows differ, also when one of them has the legacy prefix in front. -/
def Separated (body body' : Body) : Prop :=
  row body ≠ row body' ∧ row body ≠ "pothole_detected".toList :: row body' ∧
    "pothole_detected".toList :: row body ≠ row body'

instance (body body' : Body) : Decidable (Separated body body') :=
  inferInstanceAs (Decidable (_ ∧ _))

section
variable {body body' : Body}

/-- The MAC has no collision on the payloads of the two bodies. -/
def NoCollision (body body' : Body) : Prop :=
  ∀ p ∈ payloads body, ∀ q ∈ payloads body',
    hmac DEVICE_SECRET (utf8 p) = hmac DEVICE_SECRET (utf8 q) → utf8 p = utf8 q

instance : Decidable (NoCollision body body') :=
  inferInstanceAs (Decidable (∀ p ∈ payloads body, ∀ q ∈ payloads body',
    hmac DEVICE_SECRET (utf8 p) = hmac DEVICE_SECRET (utf8 q) → utf8 p = utf8 q))

/-- A common proof is the MAC of one text that is a payload of both. -/
theorem common_proof_iff (h : Accepted body) (h' : Accepted body')
    (hmac : NoCollision body body') :
    (∃ proof, SubmitMatches body proof ∧ SubmitMatches body' proof) ↔
      ∃ p ∈ payloads body, ∃ q ∈ payloads body', pieces p = pieces q := by
  constructor
  · rintro ⟨proof, hm, hm'⟩
    obtain ⟨-, -, p, hp, hproof⟩ := submitMatches_iff.1 hm
    obtain ⟨-, -, q, hq, hproof'⟩ := submitMatches_iff.1 hm'
    have heq := hexText_injective (hproof.symm.trans hproof')
    exact ⟨p, hp, q, hq, utf8_eq_iff.1 (hmac p hp q hq heq)⟩
  · rintro ⟨p, hp, q, hq, heq⟩
    refine ⟨hmacHex DEVICE_SECRET p, submitMatches_digest h hp, ?_⟩
    have hsame : hmacHex DEVICE_SECRET p = hmacHex DEVICE_SECRET q := by
      rw [hmacHex, utf8_eq_iff.2 heq, hmacHex]
    rw [hsame]
    exact submitMatches_digest h' hq

/-- The four pairs of payloads, seen from the fields. -/
theorem payloads_meet_iff (h : Accepted body) (h' : Accepted body') :
    (∃ p ∈ payloads body, ∃ q ∈ payloads body', pieces p = pieces q) ↔
      ¬ Separated body body' := by
  obtain ⟨payload, hpayloads, hrow⟩ := h.payloads
  obtain ⟨payload', hpayloads', hrow'⟩ := h'.payloads
  have hleg := pieces_legacy payload
  have hleg' := pieces_legacy payload'
  rw [hrow] at hleg
  rw [hrow'] at hleg'
  rw [hpayloads, hpayloads']
  simp only [List.mem_cons, List.not_mem_nil, or_false, exists_eq_or_imp, exists_eq_left, hrow,
    hrow', hleg, hleg', List.cons.injEq, true_and, Separated]
  by_cases h1 : row body = row body'
  · simp [h1]
  · simp only [h1, false_or, or_false, ne_eq, not_false_eq_true, true_and]
    rw [← not_or, not_not]

/-- **Exactly when no proof is matched for two bodies**: when the pieces of their fields separate
them. -/
theorem submit_disjoint_iff (h : Accepted body) (h' : Accepted body')
    (hmac : NoCollision body body') :
    (¬ ∃ proof, SubmitMatches body proof ∧ SubmitMatches body' proof) ↔
      Separated body body' := by
  rw [common_proof_iff h h' hmac, payloads_meet_iff h h', not_not]

end

/-- A body with texts in the three signed fields. -/
def form (sealedSkyText timestamp imageHash : String) : Body where
  sealedSkyText := .str (js sealedSkyText)
  result := .undefined
  timestamp := .str (js timestamp)
  imageHash := .str (js imageHash)
  proof := .undefined

theorem accepted_form {a b c : String} (h : trim (js c) ≠ []) : Accepted (form a b c) where
  timestamp := by
    simp [isTimestampValid, form, JsValue.toNumber, JsValue.str?]
  imageHash := isText_iff.2 ⟨_, rfl, h⟩

theorem submit_disjoint_timestamps :
    ¬ ∃ proof, SubmitMatches (form "a" "1" "c") proof ∧ SubmitMatches (form "a" "2" "c") proof :=
  (submit_disjoint_iff (accepted_form (by decide)) (accepted_form (by decide))
    (by decide +kernel)).2 (by decide)

/-- A delimiter can move from one field into the next. -/
theorem submit_shared :
    Accepted (form "a" "b|c" "d") ∧ Accepted (form "a|b" "c" "d") ∧
      sealedSkyTextFromBody (form "a" "b|c" "d") ≠ sealedSkyTextFromBody (form "a|b" "c" "d") ∧
      canonicalPayload (form "a" "b|c" "d") = canonicalPayload (form "a|b" "c" "d") ∧
      ∃ proof, SubmitMatches (form "a" "b|c" "d") proof ∧
        SubmitMatches (form "a|b" "c" "d") proof := by
  have h : Accepted (form "a" "b|c" "d") := accepted_form (by decide)
  have h' : Accepted (form "a|b" "c" "d") := accepted_form (by decide)
  have hpayloads : payloads (form "a" "b|c" "d") = payloads (form "a|b" "c" "d") := by decide
  obtain ⟨payload, hp, -⟩ := h.payloads
  have hmem : payload ∈ payloads (form "a" "b|c" "d") := by simp [hp]
  exact ⟨h, h', by decide, by decide, hmacHex DEVICE_SECRET payload,
    submitMatches_digest h hmem, submitMatches_digest h' (hpayloads ▸ hmem)⟩

/-- No signed field holds the delimiter. -/
def NoBar (body : Body) : Prop :=
  '|' ∉ toWellFormed (sealedSkyTextFromBody body) ∧ '|' ∉ toWellFormed (printed body.timestamp) ∧
    '|' ∉ toWellFormed (printed body.imageHash)

theorem row_of_noBar {body : Body} (h : NoBar body) :
    row body = [toWellFormed (sealedSkyTextFromBody body), toWellFormed (printed body.timestamp),
      toWellFormed (printed body.imageHash)] := by
  unfold row pieces
  rw [List.splitOn_eq_singleton h.1, List.splitOn_eq_singleton h.2.1,
    List.splitOn_eq_singleton h.2.2]
  rfl

/-- **Fields without a `|` never share a proof**, the legacy payload included. -/
theorem no_common_proof_of_noBar {body body' : Body} (h : Accepted body) (h' : Accepted body')
    (hmac : NoCollision body body') (hbar : NoBar body) (hbar' : NoBar body')
    (hne : row body ≠ row body') :
    ¬ ∃ proof, SubmitMatches body proof ∧ SubmitMatches body' proof := by
  rw [common_proof_iff h h' hmac, payloads_meet_iff h h', not_not]
  refine ⟨hne, fun heq => ?_, fun heq => ?_⟩
  · rw [row_of_noBar hbar, row_of_noBar hbar'] at heq
    exact absurd (congrArg List.length heq) (by simp)
  · rw [row_of_noBar hbar, row_of_noBar hbar'] at heq
    exact absurd (congrArg List.length heq) (by simp)

end SealedSky.Backend
