import SealedSky.Web.Ctrng
import SealedSky.Web.Share

/-!
# One attempt to unseal (`sealed-sky-web/src/App.tsx:252-347`)

An attempt works on the item as it was when the attempt began. It runs from one `await` to the next: it
patches the item, waits at a stage, and ends when `tryUnseal` takes its id out of `inFlight`.

* `start_spec`, `advance_spec` — what an attempt has checked at each stage, and that only an attempt that
  has checked everything writes the plaintext of a cTRNG item.
-/
namespace SealedSky.Web.App

open Js

/-- Where an attempt waits, with the locals that it still needs. `failed` and `ended` are the two ways
out of `tryUnsealDrand` and `tryUnsealCtrng`, in front of `catch` and `finally`. -/
inductive Stage where
  | fetchingRound
  | decrypting (ct : List UInt8)
  | fetching (parsed : ParsedCtrngEnvelope)
  | verifying (parsed : ParsedCtrngEnvelope) (witness : BeaconBlock) (keyBytes : List UInt8)
  | opening (parsed : ParsedCtrngEnvelope) (witness : BeaconBlock) (keyBytes : List UInt8)
  | failed (e : Thrown)
  | ended

/-- What an attempt goes on with: the replies of the gateways, whether drand has a signature or what
`fetchRound` throws, what `drandDecrypt` returns, and the message of an exception of the engine. -/
inductive Outcome where
  | beacon (reply : JsString → Reply)
  | round (sig : Result Bool)
  | decrypted (plaintext : Result JsString)
  | settled
  | caught (engine : JsString)

/-- The patches of the code. -/
def toError (message : JsString) : Patch := { status := some .error, error := some (some message) }

def toReady (message : JsString) : Patch := { status := some .ready, error := some (some message) }

def toUnsealing : Patch := { status := some .unsealing, error := some none }

def toUnsealed (plaintext : JsString) : Patch :=
  { status := some .unsealed, plaintext := some plaintext, error := some none }

/-- App.tsx:306. -/
def toUnsealedBy (plaintext : JsString) (witness : BeaconBlock) : Patch :=
  { toUnsealed plaintext with
    ctrngWitnessSequence := some (.num witness.sequence)
    ctrngWitnessTimestamp := some (.num witness.timestamp)
    ctrngWitnessValue := some (witness.ctrng.headD .undefined)
    ctrngWitnessUrl := some witness.sourceUrl }

/-- The text of App.tsx:292. -/
def tooEarly (parsed : ParsedCtrngEnvelope) (witness : BeaconBlock) : Option JsString :=
  parsed.unlockUnix.toText.map fun unlock =>
    js "cTRNG block " ++ toString witness.sequence ++ js " ts " ++ toString witness.timestamp ++
      js " < unlock " ++ unlock

/-- What an attempt does before its first `await`. -/
def start (item : QueueItem) : Option Patch × Stage :=
  match item.backend with
  | .drand =>
    if isUndefined item.round then (some (toError (js "missing round")), .ended)
    else (none, .fetchingRound)
  | .ctrng =>
    match nonEmpty item.ctrngKeyB64 with
    | none => (some (toError (js "key missing (sealed in another browser?)")), .ended)
    | some _ =>
      match unpackCtrng item.envelope with
      | .error e => (none, .failed e)
      | .ok parsed => (none, .fetching parsed)

/-- App.tsx:288-299, with the block that was fetched. -/
def gate (item : QueueItem) (parsed : ParsedCtrngEnvelope) (witness : BeaconBlock) :
    Option Patch × Stage :=
  match lessThan witness.timestamp parsed.unlockUnix with
  | none => (none, .failed .engine)
  | some true =>
    match tooEarly parsed witness with
    | none => (none, .failed .engine)
    | some message => (some (toReady message), .ended)
  | some false =>
    match b64ToBytes (optional item.ctrngKeyB64) with
    | .error e => (some toUnsealing, .failed e)
    | .ok keyBytes => (some toUnsealing, .verifying parsed witness keyBytes)

/-- From one `await` to the next: the patch, and the next stage or the end. -/
def advance (A : AesGcm) (item : QueueItem) : Stage → Outcome →
    Option (Option Patch × Option Stage)
  | .fetchingRound, .round sig =>
    match sig with
    | .error e => some (none, some (.failed e))
    | .ok false => some (some (toReady (js "drand catching up…")), some .ended)
    | .ok true =>
      match unpack item.envelope with
      | .error e => some (some toUnsealing, some (.failed e))
      | .ok parsed => some (some toUnsealing, some (.decrypting parsed.ct))
  | .decrypting _, .decrypted plaintext =>
    match plaintext with
    | .error e => some (none, some (.failed e))
    | .ok plaintext => some (some (toUnsealed plaintext), some .ended)
  | .fetching parsed, .beacon reply =>
    match fetchLatestBeacon reply with
    | .error e => some (none, some (.failed e))
    | .ok witness => some ((gate item parsed witness).map id some)
  | .verifying parsed witness keyBytes, .settled =>
    match verifyCommitment parsed.commit keyBytes parsed.iv parsed.unlockUnix with
    | .error e => some (none, some (.failed e))
    | .ok false => some (some (toError (js "commitment mismatch")), some .ended)
    | .ok true => some (none, some (.opening parsed witness keyBytes))
  | .opening parsed witness keyBytes, .settled =>
    match symOpen A parsed.ct parsed.iv keyBytes with
    | .error e => some (none, some (.failed e))
    | .ok plaintext => some (some (toUnsealedBy plaintext witness), some .ended)
  | .failed e, .caught engine =>
    match e with
    | .engine => some (some (toError engine), none)
    | .error message => some (some (toError message), none)
  | .ended, .settled => some (none, none)
  | _, _ => none

/-- What comes of a step, by what the code did. -/
inductive Advanced (A : AesGcm) (item : QueueItem) :
    Stage → Outcome → Option Patch → Option Stage → Prop
  | thrown {st o e} (hst : st ≠ .ended) : Advanced A item st o none (some (.failed e))
  | notYet {o} : Advanced A item .fetchingRound o (some (toReady (js "drand catching up…")))
      (some .ended)
  | malformed {o e} : Advanced A item .fetchingRound o (some toUnsealing) (some (.failed e))
  | decrypts {o parsed} (hunpack : unpack item.envelope = .ok parsed) :
      Advanced A item .fetchingRound o (some toUnsealing) (some (.decrypting parsed.ct))
  | decrypted {ct o plaintext} :
      Advanced A item (.decrypting ct) o (some (toUnsealed plaintext)) (some .ended)
  | fetched {parsed reply witness} (hfetch : fetchLatestBeacon reply = .ok witness) :
      Advanced A item (.fetching parsed) (.beacon reply) (gate item parsed witness).1
        (some (gate item parsed witness).2)
  | mismatch {parsed witness keyBytes o} :
      Advanced A item (.verifying parsed witness keyBytes) o
        (some (toError (js "commitment mismatch"))) (some .ended)
  | verified {parsed witness keyBytes o}
      (hverify : verifyCommitment parsed.commit keyBytes parsed.iv parsed.unlockUnix = .ok true) :
      Advanced A item (.verifying parsed witness keyBytes) o none
        (some (.opening parsed witness keyBytes))
  | opened {parsed witness keyBytes o plaintext}
      (hopen : symOpen A parsed.ct parsed.iv keyBytes = .ok plaintext) :
      Advanced A item (.opening parsed witness keyBytes) o
        (some (toUnsealedBy plaintext witness)) (some .ended)
  | caught {e o message} : Advanced A item (.failed e) o (some (toError message)) none
  | ended {o} : Advanced A item .ended o none none

/-- **What a step can do.** -/
theorem advance_cases {A : AesGcm} {item : QueueItem} {st : Stage} {o : Outcome}
    {p : Option Patch} {next : Option Stage} (h : advance A item st o = some (p, next)) :
    Advanced A item st o p next := by
  cases st with
  | fetchingRound =>
    cases o with
    | round sig =>
      rcases sig with e | _ | _
      · cases h
        exact .thrown (by simp)
      · cases h
        exact .notYet
      · rw [advance] at h
        split at h
        · cases h
          exact .malformed
        · rename_i parsed hunpack
          cases h
          exact .decrypts hunpack
    | _ => cases h
  | decrypting ct =>
    cases o with
    | decrypted plaintext =>
      rcases plaintext with e | plaintext
      · cases h
        exact .thrown (by simp)
      · cases h
        exact .decrypted
    | _ => cases h
  | fetching parsed =>
    cases o with
    | beacon reply =>
      rw [advance] at h
      split at h
      · cases h
        exact .thrown (by simp)
      · rename_i witness hfetch
        cases h
        exact .fetched hfetch
    | _ => cases h
  | verifying parsed witness keyBytes =>
    cases o with
    | settled =>
      rw [advance] at h
      split at h
      · cases h
        exact .thrown (by simp)
      · cases h
        exact .mismatch
      · rename_i hverify
        cases h
        exact .verified hverify
    | _ => cases h
  | opening parsed witness keyBytes =>
    cases o with
    | settled =>
      rw [advance] at h
      split at h
      · cases h
        exact .thrown (by simp)
      · rename_i plaintext hopen
        cases h
        exact .opened hopen
    | _ => cases h
  | failed e =>
    cases o with
    | caught engine =>
      cases e with
      | engine =>
        cases h
        exact .caught
      | error message =>
        cases h
        exact .caught
    | _ => cases h
  | ended =>
    cases o with
    | settled =>
      cases h
      exact .ended
    | _ => cases h

/-! ## What an attempt has checked -/

/-- The block that an attempt has fetched in a step. -/
def fetchedBy : Stage → Outcome → Option BeaconBlock
  | .fetching _, .beacon reply => (fetchLatestBeacon reply).toOption
  | _, _ => none

/-- A capsule is open: the block is not before its unlock time, the commitment made of its key, its iv
and its unlock time is that of its envelope, and the plaintext is what it decrypts to. -/
def Opened (A : AesGcm) (envelope : JsString) (key : Option JsString) (witness : BeaconBlock)
    (plaintext : JsString) : Prop :=
  ∃ parsed k keyBytes unlock commit, unpackCtrng envelope = .ok parsed ∧ key = some k ∧
    b64ToBytes (.str k) = .ok keyBytes ∧ parsed.unlockUnix.toNumber = some unlock ∧
    unlock.le witness.timestamp = true ∧
    commitment keyBytes parsed.iv parsed.unlockUnix = .ok commit ∧ parsed.commit = .str commit ∧
    symOpen A parsed.ct parsed.iv keyBytes = .ok plaintext

/-- What holds of the locals once the block has passed the gate. -/
structure PastGate (Seen : BeaconBlock → Prop) (item : QueueItem) (parsed : ParsedCtrngEnvelope)
    (witness : BeaconBlock) (keyBytes : List UInt8) : Prop where
  backend : item.backend = .ctrng
  unpacked : unpackCtrng item.envelope = .ok parsed
  seen : Seen witness
  isNumber : witness.timestamp ≠ .nan
  notBefore : lessThan witness.timestamp parsed.unlockUnix = some false
  key : ∃ k, item.ctrngKeyB64 = some k ∧ b64ToBytes (.str k) = .ok keyBytes

def StageOk (Seen : BeaconBlock → Prop) (item : QueueItem) : Stage → Prop
  | .fetchingRound => item.backend = .drand
  | .decrypting _ => item.backend = .drand
  | .fetching parsed => item.backend = .ctrng ∧ (∃ k, item.ctrngKeyB64 = some k) ∧
      unpackCtrng item.envelope = .ok parsed
  | .verifying parsed witness keyBytes => PastGate Seen item parsed witness keyBytes
  | .opening parsed witness keyBytes => PastGate Seen item parsed witness keyBytes ∧
      verifyCommitment parsed.commit keyBytes parsed.iv parsed.unlockUnix = .ok true
  | .failed _ => True
  | .ended => True

/-- A patch that writes neither a plaintext nor a witness. -/
def Quiet (p : Patch) : Prop :=
  p.plaintext = none ∧ p.ctrngWitnessSequence = none ∧ p.ctrngWitnessTimestamp = none

/-- What an attempt writes. -/
def PatchOk (A : AesGcm) (Seen : BeaconBlock → Prop) (item : QueueItem) (p : Patch) : Prop :=
  Quiet p ∨ item.backend = .drand ∨
    ∃ witness plaintext, p = toUnsealedBy plaintext witness ∧ Seen witness ∧
      Opened A item.envelope item.ctrngKeyB64 witness plaintext

section
variable {A : AesGcm} {Seen Seen' : BeaconBlock → Prop} {item : QueueItem}

theorem PastGate.mono {parsed : ParsedCtrngEnvelope} {witness : BeaconBlock} {keyBytes : List UInt8}
    (h : PastGate Seen item parsed witness keyBytes) (hseen : ∀ b, Seen b → Seen' b) :
    PastGate Seen' item parsed witness keyBytes :=
  { h with seen := hseen _ h.seen }

theorem StageOk.mono {st : Stage} (h : StageOk Seen item st) (hseen : ∀ b, Seen b → Seen' b) :
    StageOk Seen' item st := by
  cases st with
  | verifying parsed witness keyBytes => exact PastGate.mono h hseen
  | opening parsed witness keyBytes => exact ⟨h.1.mono hseen, h.2⟩
  | _ => exact h

theorem quiet_toError (message : JsString) : Quiet (toError message) := ⟨rfl, rfl, rfl⟩

theorem quiet_toReady (message : JsString) : Quiet (toReady message) := ⟨rfl, rfl, rfl⟩

theorem quiet_toUnsealing : Quiet toUnsealing := ⟨rfl, rfl, rfl⟩

theorem start_spec (Seen : BeaconBlock → Prop) (item : QueueItem) :
    StageOk Seen item (start item).2 ∧ ∀ p, (start item).1 = some p → Quiet p := by
  unfold start
  cases hb : item.backend with
  | drand =>
    simp only
    split
    · exact ⟨trivial, fun p hp => Option.some.inj hp ▸ quiet_toError _⟩
    · exact ⟨hb, fun p hp => nomatch hp⟩
  | ctrng =>
    simp only
    cases hk : nonEmpty item.ctrngKeyB64 with
    | none => exact ⟨trivial, fun p hp => Option.some.inj hp ▸ quiet_toError _⟩
    | some k =>
      have hkey := (Option.filter_eq_some_iff.1 hk).1
      cases hu : unpackCtrng item.envelope with
      | error e => exact ⟨trivial, fun p hp => nomatch hp⟩
      | ok parsed => exact ⟨⟨hb, ⟨k, hkey⟩, hu⟩, fun p hp => nomatch hp⟩

theorem gate_spec {parsed : ParsedCtrngEnvelope} {witness : BeaconBlock}
    (h : StageOk Seen item (.fetching parsed)) (hseen : Seen witness)
    (hnum : witness.timestamp ≠ .nan) :
    StageOk Seen item (gate item parsed witness).2 ∧
      ∀ p, (gate item parsed witness).1 = some p → Quiet p := by
  obtain ⟨hb, ⟨k, hk⟩, hu⟩ := h
  unfold gate
  cases hlt : lessThan witness.timestamp parsed.unlockUnix with
  | none => exact ⟨trivial, fun p hp => nomatch hp⟩
  | some early =>
    cases early with
    | true =>
      simp only
      cases tooEarly parsed witness with
      | none => exact ⟨trivial, fun p hp => nomatch hp⟩
      | some message => exact ⟨trivial, fun p hp => Option.some.inj hp ▸ quiet_toReady _⟩
    | false =>
      simp only [hk, optional]
      cases hbytes : b64ToBytes (.str k) with
      | error e => exact ⟨trivial, fun p hp => Option.some.inj hp ▸ quiet_toUnsealing⟩
      | ok keyBytes =>
        exact ⟨⟨hb, hu, hseen, hnum, hlt, k, hk, hbytes⟩,
          fun p hp => Option.some.inj hp ▸ quiet_toUnsealing⟩

/-- What has passed the gate and verifies is open. -/
theorem PastGate.opened {parsed : ParsedCtrngEnvelope} {witness : BeaconBlock}
    {keyBytes : List UInt8} {plaintext : JsString}
    (h : PastGate Seen item parsed witness keyBytes)
    (hverify : verifyCommitment parsed.commit keyBytes parsed.iv parsed.unlockUnix = .ok true)
    (hopen : symOpen A parsed.ct parsed.iv keyBytes = .ok plaintext) :
    Opened A item.envelope item.ctrngKeyB64 witness plaintext := by
  obtain ⟨k, hk, hbytes⟩ := h.key
  obtain ⟨commit, hcommit, heq⟩ := commitment_of_verifyCommitment hverify
  obtain ⟨unlock, hunlock, hfin⟩ := commitment_finite hcommit
  have hlt : witness.timestamp.lt unlock = false := by
    have hlt := h.notBefore
    rw [lessThan, hunlock] at hlt
    exact Option.some.inj hlt
  have hle := (JsNum.lt_eq_false_iff h.isNumber (by rintro rfl; cases hfin)).1 hlt
  exact ⟨parsed, k, keyBytes, unlock, commit, h.unpacked, hk, hbytes, hunlock, hle, hcommit, heq,
    hopen⟩

/-- What an attempt has done by its next `await`. -/
def StepOk (A : AesGcm) (Seen : BeaconBlock → Prop) (item : QueueItem) (p : Option Patch)
    (next : Option Stage) : Prop :=
  (∀ st, next = some st → StageOk Seen item st) ∧ ∀ q, p = some q → PatchOk A Seen item q

theorem stepOk_wait {p : Option Patch} {st : Stage} (hst : StageOk Seen item st)
    (hp : ∀ q, p = some q → PatchOk A Seen item q) : StepOk A Seen item p (some st) :=
  ⟨fun _ h => Option.some.inj h ▸ hst, hp⟩

theorem patchOk_none : ∀ q, (none : Option Patch) = some q → PatchOk A Seen item q :=
  fun _ h => nomatch h

theorem patchOk_quiet {p : Patch} (h : Quiet p) : ∀ q, some p = some q → PatchOk A Seen item q :=
  fun _ heq => Option.some.inj heq ▸ Or.inl h

theorem advance_spec {st : Stage} {o : Outcome} {p : Option Patch} {next : Option Stage}
    (h : StageOk Seen item st) (hseen : ∀ b, Seen b → Seen' b)
    (hnew : ∀ b, fetchedBy st o = some b → Seen' b)
    (hadv : advance A item st o = some (p, next)) : StepOk A Seen' item p next := by
  cases advance_cases hadv with
  | thrown hst => exact stepOk_wait trivial patchOk_none
  | notYet => exact stepOk_wait trivial (patchOk_quiet (quiet_toReady _))
  | malformed => exact stepOk_wait trivial (patchOk_quiet quiet_toUnsealing)
  | decrypts hunpack => exact stepOk_wait h (patchOk_quiet quiet_toUnsealing)
  | decrypted => exact stepOk_wait trivial fun q _ => Or.inr (Or.inl h)
  | @fetched parsed reply witness hfetch =>
    have hwitness : Seen' witness := hnew witness (by rw [fetchedBy, hfetch]; rfl)
    obtain ⟨hst, hp⟩ := gate_spec (h.mono hseen) hwitness (fetchLatestBeacon_not_nan hfetch).2
    exact stepOk_wait hst fun q hq => Or.inl (hp q hq)
  | mismatch => exact stepOk_wait trivial (patchOk_quiet (quiet_toError _))
  | verified hverify => exact stepOk_wait ⟨PastGate.mono h hseen, hverify⟩ patchOk_none
  | @opened parsed witness keyBytes _ plaintext hopen =>
    refine stepOk_wait trivial fun q hq => Or.inr (Or.inr ⟨witness, plaintext, ?_, ?_, ?_⟩)
    · exact (Option.some.inj hq).symm
    · exact hseen _ h.1.seen
    · exact h.1.opened h.2 hopen
  | caught => exact ⟨(fun _ h => nomatch h), patchOk_quiet (quiet_toError _)⟩
  | ended => exact ⟨(fun _ h => nomatch h), patchOk_none⟩

end

end SealedSky.Web.App
