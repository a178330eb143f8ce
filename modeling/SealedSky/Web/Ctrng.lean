import SealedSky.Js.Arith
import SealedSky.Js.IsJson
import SealedSky.Web.Envelope

/-!
# The cTRNG beacon (`sealed-sky-web/src/lib/ctrng.ts`)

`fetchLatestBeacon` asks one gateway after the other and takes the first block that is not malformed.
Nothing in a block is checked but the types of its sequence, its timestamp and its list of values.

* `fetchLatestBeacon_not_nan` — the sequence and the timestamp of a block are numbers, not `NaN`.
-/
namespace SealedSky.Web

open Js Fallible

/-- ctrng.ts:4. -/
def CTRNG_GATEWAYS : List JsString :=
  [js "https://ipfs.io/ipns/" ++ CTRNG_IPNS_KEY,
    js "https://dweb.link/ipns/" ++ CTRNG_IPNS_KEY,
    js "https://gateway.pinata.cloud/ipns/" ++ CTRNG_IPNS_KEY]

/-- ctrng.ts:10. -/
structure BeaconBlock where
  sequence : JsNum
  timestamp : JsNum
  ctrng : List JsValue
  sourceUrl : JsString

/-- ctrng.ts:27. -/
def normalize (raw : JsValue) (sourceUrl : JsString) : Result BeaconBlock :=
  let data := raw.get (js "data")
  match data.get (js "sequence"), data.get (js "timestamp"), data.get (js "ctrng") with
  | .num sequence, .num timestamp, .arr ctrng => .ok { sequence, timestamp, ctrng, sourceUrl }
  | _, _, _ => .error (.error (js "malformed cTRNG beacon block"))

/-- What comes of one `fetch`. -/
inductive Reply where
  | failed
  | response (status : ℕ) (body : JsString)

/-- The body of the loop of `fetchLatestBeacon`. -/
def fetchFrom (url : JsString) : Reply → Result BeaconBlock
  | .failed => .error .engine
  | .response status body =>
    if 200 ≤ status ∧ status ≤ 299 then do
      let raw ← ofEngine (parse body)
      normalize raw url
    else .error (.error (js "HTTP " ++ toString (ofRat status)))

def fetchFirst (reply : JsString → Reply) (lastErr : Option Thrown) :
    List JsString → Result BeaconBlock
  | [] => .error (lastErr.getD (.error (js "all cTRNG gateways failed")))
  | url :: urls =>
    match fetchFrom url (reply url) with
    | .ok block => .ok block
    | .error e => fetchFirst reply (some e) urls

/-- ctrng.ts:44. -/
def fetchLatestBeacon (reply : JsString → Reply) : Result BeaconBlock :=
  fetchFirst reply none CTRNG_GATEWAYS

/-- ctrng.ts:67. -/
def SECONDS_PER_BLOCK : ℚ := 60

/-- ctrng.ts:69. -/
def estimateTargetSequence (unlockUnix : JsNum) (reference : BeaconBlock) : JsNum :=
  let delta := unlockUnix.sub reference.timestamp
  if delta.le (ofRat 0) then reference.sequence
  else reference.sequence.add (delta.divBy SECONDS_PER_BLOCK).ceil

/-! ## What is fetched -/

theorem ne_nan_of_isJson {v : JsValue} {x : JsNum} (h : v = .undefined ∨ IsJson v)
    (hv : v = .num x) : x ≠ .nan := by
  subst hv
  rcases h with h | h
  · cases h
  · rwa [IsJson] at h

theorem normalize_not_nan {raw : JsValue} {url : JsString} {block : BeaconBlock}
    (hjson : IsJson raw) (h : normalize raw url = .ok block) :
    block.sequence ≠ .nan ∧ block.timestamp ≠ .nan := by
  have hdata : ∀ k, (raw.get (js "data")).get k = .undefined ∨
      IsJson ((raw.get (js "data")).get k) := by
    intro k
    rcases isJson_get hjson (js "data") with hd | hd
    · rw [hd]
      exact Or.inl rfl
    · exact isJson_get hd k
  unfold normalize at h
  simp only at h
  split at h
  · rename_i hseq hts _
    cases h
    exact ⟨ne_nan_of_isJson (hdata _) hseq, ne_nan_of_isJson (hdata _) hts⟩
  · cases h

theorem fetchFrom_not_nan {url : JsString} {reply : Reply} {block : BeaconBlock}
    (h : fetchFrom url reply = .ok block) :
    block.sequence ≠ .nan ∧ block.timestamp ≠ .nan := by
  cases reply with
  | failed => cases h
  | response status body =>
    rw [fetchFrom] at h
    split at h
    · obtain ⟨raw, hraw, h⟩ := bind_eq_ok.1 h
      cases hp : parse body with
      | none =>
        rw [hp] at hraw
        cases hraw
      | some v =>
        rw [hp] at hraw
        cases hraw
        exact normalize_not_nan (isJson_parse hp) h
    · cases h

/-- **The numbers of a block are numbers.** -/
theorem fetchLatestBeacon_not_nan {reply : JsString → Reply} {block : BeaconBlock}
    (h : fetchLatestBeacon reply = .ok block) :
    block.sequence ≠ .nan ∧ block.timestamp ≠ .nan := by
  have hfirst : ∀ urls lastErr, fetchFirst reply lastErr urls = .ok block →
      block.sequence ≠ .nan ∧ block.timestamp ≠ .nan := by
    intro urls
    induction urls with
    | nil =>
      intro lastErr h
      cases h
    | cons url urls ih =>
      intro lastErr h
      rw [fetchFirst] at h
      cases hone : fetchFrom url (reply url) with
      | ok b =>
        rw [hone] at h
        cases h
        exact fetchFrom_not_nan hone
      | error e =>
        rw [hone] at h
        exact ih _ h
  exact hfirst _ _ h

end SealedSky.Web
