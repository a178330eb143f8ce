import SealedSky.Backend.Payload
import SealedSky.Js.Json
import SealedSky.Lib.Lts

/-!
# The two recording endpoints of the backend (`backend/server.js:306-560`)

`/submit` and `/sign-inference` with their audit records, the contract call and their answers. A
handler runs up to its next `await` in one step, so a run is any interleaving of requests, and what
the network, the chain, the device and the disk do at each step is part of the action. The other
routes neither append a record nor call the contract.

* `calls_verified` — only verified claims reach the chain, and accepted records belong to them.
* `run_consistent_iff` — exactly which runs answer a confirmed transaction as a failed one.
-/
namespace SealedSky.Backend

open Js Sha256

/-- The two functions of `ethers` that `/submit` hashes with. `toUtf8Bytes` throws (`none`) on a lone
surrogate. -/
structure Ethers where
  toUtf8Bytes : JsString → Option (List UInt8)
  keccak256 : List UInt8 → JsString
  toUtf8Bytes_eq : ∀ s bs, toUtf8Bytes s = some bs → bs = utf8 s

inductive Status where
  | accepted
  | rejected
  | deviceSigned
  deriving DecidableEq

/-- A record of the history file, with the properties in the order of the literals. -/
structure HistoryRecord where
  receivedAt : JsString
  status : Status
  stage : Option JsString := none
  reason : Option JsString := none
  note : Option JsString := none
  error : Option JsString := none
  details : Option JsString := none
  raw : Option JsString := none
  sealedSkyText : JsString
  timestamp : JsValue
  imageHash : JsValue
  proof : JsValue := .undefined
  payload : Option JsString := none
  payloadHash : Option JsString := none
  tx : Option JsString := none
  canonicalPayload : Option JsString := none
  legacyPayload : Option JsString := none

/-- An answer: its code and the properties of its JSON body. -/
structure Response where
  code : ℕ
  success : Option Bool := none
  verified : Option Bool := none
  error : JsValue := .undefined
  details : Option JsString := none
  raw : Option JsString := none
  tx : Option JsString := none
  hash : JsValue := .undefined
  receivedAt : Option JsString := none

/-- What Express answers when a handler throws: a page, no JSON. -/
def errorPage : Response where
  code := 500

/-- The arguments of `contract.submitInference` (server.js:382). -/
structure Call where
  deviceId : JsString
  result : JsString
  timestamp : JsValue
  imageHash : JsValue
  payloadHash : JsString

/-- The locals of `/submit` that live across its awaits. -/
structure Pending where
  receivedAt : JsString
  sealedSkyText : JsString
  timestamp : JsValue
  imageHash : JsValue
  proofNorm : JsString
  matchedPayload : JsString
  payloadHash : JsString

def Pending.call (p : Pending) : Call where
  deviceId := js "armory-mk2-alpha"
  result := p.sealedSkyText
  timestamp := p.timestamp
  imageHash := p.imageHash
  payloadHash := p.payloadHash

/-- What a handler does up to its next `await`. -/
inductive Reached where
  | threw
  | answered (record : HistoryRecord) (response : Response)
  | calls (p : Pending)

/-- `v || w` takes `v`. -/
def truthy : JsValue → Bool
  | .undefined => false
  | .null => false
  | .bool b => b
  | .num x => decide (x ≠ .nan ∧ x ≠ ofRat 0)
  | .str s => !s.isEmpty
  | .arr _ => true
  | .obj _ => true

/-- server.js:81, `none` where `String` throws. -/
def normalizeProof (proof : JsValue) : Option JsString :=
  (if truthy proof then proof.toText else some []).map normalizeProofHex

/-- `POST /submit` up to the contract call (server.js:306-389). A request without a JSON body has no
`req.body` to take the fields from. -/
def handleSubmit (E : Ethers) (receivedAt : JsString) (body : Option Body) : Reached :=
  match body with
  | none => .threw
  | some body =>
    let sealedSkyText := sealedSkyTextFromBody body
    let rejected : HistoryRecord :=
      { receivedAt, status := .rejected, sealedSkyText, timestamp := body.timestamp,
        imageHash := body.imageHash, proof := body.proof }
    match submit body with
    | .threw => .threw
    | .invalidInput =>
      .answered { rejected with reason := some (js "invalid input") }
        { code := 400, error := .str (js "timestamp, imageHash and proof are required") }
    | .invalidProof =>
      .answered
        { rejected with
          reason := some (js "invalid proof")
          canonicalPayload := Backend.canonicalPayload body
          legacyPayload := (Backend.canonicalPayload body).map Backend.legacyPayload }
        { code := 200, success := some false, verified := some false,
          error := .str (js "invalid proof"), receivedAt := some receivedAt }
    | .matched matchedPayload =>
      match normalizeProof body.proof, E.toUtf8Bytes matchedPayload with
      | some proofNorm, some payloadBytes =>
        .calls
          { receivedAt, sealedSkyText, timestamp := body.timestamp, imageHash := body.imageHash,
            proofNorm, matchedPayload, payloadHash := E.keccak256 payloadBytes }
      | _, _ => .threw

/-- The record of a confirmed transaction (server.js:393). -/
def acceptedRecord (p : Pending) (tx : JsString) : HistoryRecord :=
  { receivedAt := p.receivedAt, status := .accepted, stage := some (js "submit_chain"),
    sealedSkyText := p.sealedSkyText, timestamp := p.timestamp, imageHash := p.imageHash,
    proof := .str p.proofNorm, payload := some p.matchedPayload,
    payloadHash := some p.payloadHash, tx := some tx }

def acceptedResponse (p : Pending) (tx : JsString) : Response :=
  { code := 200, success := some true, tx := some tx, receivedAt := some p.receivedAt }

/-- The record of the `catch` (server.js:414). -/
def failedRecord (p : Pending) (now msg : JsString) : HistoryRecord :=
  { receivedAt := now, status := .rejected, stage := some (js "submit_chain"),
    reason := some (js "chain_submit_failed"), error := some msg,
    sealedSkyText := p.sealedSkyText, timestamp := p.timestamp, imageHash := p.imageHash,
    proof := .str p.proofNorm, payload := some p.matchedPayload,
    payloadHash := some p.payloadHash }

def failedResponse (p : Pending) (msg : JsString) : Response :=
  { code := 502, success := some false, error := .str msg, receivedAt := some p.receivedAt }

/-- What `spawnSync("nc", …)` returns. -/
structure NcResult where
  status : Option ℤ
  stdout : Option JsString
  stderr : Option JsString

/-- `POST /sign-inference` (server.js:435), all of it in one step. -/
def handleSign (receivedAt : JsString) (body : Option Body) (nc : NcResult) : Reached :=
  match body with
  | none => .threw
  | some body =>
    let rejected : HistoryRecord :=
      { receivedAt, status := .rejected, stage := some (js "sign_inference"),
        sealedSkyText := sealedSkyTextFromBody body, timestamp := body.timestamp,
        imageHash := body.imageHash }
    match signInference body with
    | .threw => .threw
    | .invalidInput =>
      .answered { rejected with reason := some (js "invalid input") }
        { code := 400, error := .str (js "timestamp and imageHash are required") }
    | .request _ =>
      let stderr := nc.stderr.getD []
      let rawOutput := trim (nc.stdout.getD [])
      if nc.status ≠ some 0 then
        let details := if stderr = [] then js "nc exited with non-zero status" else stderr
        .answered
          { rejected with
            reason := some (js "failed to reach USB device"), details := some details }
          { code := 502, error := .str (js "failed to reach USB device"), details := some details }
      else if rawOutput = [] then
        .answered { rejected with reason := some (js "device returned empty response") }
          { code := 502, error := .str (js "device returned empty response") }
      else
        match parse rawOutput with
        | none =>
          .answered
            { rejected with
              reason := some (js "invalid response from device"), raw := some rawOutput }
            { code := 502, error := .str (js "invalid response from device"),
              raw := some rawOutput }
        | some .null => .threw
        | some parsed =>
          let error := parsed.get (js "Error")
          if truthy error then
            match error.toText with
            | none => .threw
            | some reason =>
              .answered { rejected with reason := some reason } { code := 502, error := error }
          else
            let output := parsed.get (js "Output")
            let outHash := if truthy output then output else .str []
            match normalizeProof outHash with
            | none => .threw
            | some proof =>
              .answered
                { rejected with
                  status := .deviceSigned
                  note := some (js "USB Armory SignInference HMAC")
                  proof := if proof = [] then outHash else .str proof }
                { code := 200, hash := outHash }

/-- The `await` at which a `/submit` stands. -/
inductive Waiting where
  | submitInference (p : Pending)
  | wait (p : Pending) (tx : JsString)

def Waiting.pending : Waiting → Pending
  | .submitInference p => p
  | .wait p _ => p

/-- The server and, for each request, what it has come to. -/
structure Server where
  received : List (ℕ × Option Body)
  history : List (ℕ × HistoryRecord)
  calls : List (ℕ × Call)
  confirmed : List (ℕ × JsString)
  responses : List (ℕ × Response)
  waiting : List (ℕ × Waiting)

/-- What a step takes from outside: the text of the error, where it throws. -/
abbrev Outcome (α : Type) := Except JsString α

inductive Action where
  | submit (id : ℕ) (receivedAt : JsString) (body : Option Body) (disk : Outcome Unit)
  | submitInference (id : ℕ) (now : JsString) (tx : Outcome JsString) (disk : Outcome Unit)
  | wait (id : ℕ) (now : JsString) (receipt disk diskInCatch : Outcome Unit)
  | signInference (id : ℕ) (receivedAt : JsString) (body : Option Body) (nc : NcResult)
    (disk : Outcome Unit)

namespace Server

def init : Server := ⟨[], [], [], [], [], []⟩

/-- server.js:103: the record is at the end of the file, or the file operations threw. -/
def appendHistory (s : Server) (id : ℕ) (record : HistoryRecord) (disk : Outcome Unit) :
    Outcome Server :=
  disk.map fun _ => { s with history := s.history ++ [(id, record)] }

def respond (s : Server) (id : ℕ) (response : Response) : Server :=
  { s with responses := s.responses ++ [(id, response)] }

/-- `appendHistory(record)` and then the answer. -/
def answer (s : Server) (id : ℕ) (record : HistoryRecord) (response : Response)
    (disk : Outcome Unit) : Server :=
  match s.appendHistory id record disk with
  | .ok s => s.respond id response
  | .error _ => s.respond id errorPage

/-- A new request runs up to its first `await`. -/
def enter (s : Server) (id : ℕ) (body : Option Body) (reached : Reached) (disk : Outcome Unit) :
    Server :=
  let s := { s with received := s.received ++ [(id, body)] }
  match reached with
  | .threw => s.respond id errorPage
  | .answered record response => s.answer id record response disk
  | .calls p =>
    { s with
      calls := s.calls ++ [(id, p.call)]
      waiting := s.waiting ++ [(id, .submitInference p)] }

/-- A request is past its `await`. -/
def resume (s : Server) (id : ℕ) : Server :=
  { s with waiting := s.waiting.filter fun w => w.1 ≠ id }

/-- The `catch` of `/submit` (server.js:412). -/
def chainFailed (s : Server) (id : ℕ) (p : Pending) (now msg : JsString) (disk : Outcome Unit) :
    Server :=
  s.answer id (failedRecord p now msg) (failedResponse p msg) disk

/-- The rest of the `try` once `tx.wait()` has resolved (server.js:393-411). -/
def chainConfirmed (s : Server) (id : ℕ) (p : Pending) (now tx : JsString)
    (disk diskInCatch : Outcome Unit) : Server :=
  let s := { s with confirmed := s.confirmed ++ [(id, tx)] }
  match s.appendHistory id (acceptedRecord p tx) disk with
  | .ok s => s.respond id (acceptedResponse p tx)
  | .error msg => s.chainFailed id p now msg diskInCatch

/-- The `await` of a request. -/
def waitingOf (s : Server) (id : ℕ) : Option Waiting :=
  (s.waiting.find? fun w => w.1 = id).map Prod.snd

def step (E : Ethers) (s : Server) : Action → Option Server
  | .submit id receivedAt body disk =>
    if id ∈ s.received.map Prod.fst then none
    else some (s.enter id body (handleSubmit E receivedAt body) disk)
  | .signInference id receivedAt body nc disk =>
    if id ∈ s.received.map Prod.fst then none
    else some (s.enter id body (handleSign receivedAt body nc) disk)
  | .submitInference id now tx disk =>
    match s.waitingOf id with
    | some (.submitInference p) =>
      match tx with
      | .ok tx =>
        some { s.resume id with waiting := (s.resume id).waiting ++ [(id, .wait p tx)] }
      | .error msg => some ((s.resume id).chainFailed id p now msg disk)
    | _ => none
  | .wait id now receipt disk diskInCatch =>
    match s.waitingOf id with
    | some (.wait p tx) =>
      match receipt with
      | .ok _ => some ((s.resume id).chainConfirmed id p now tx disk diskInCatch)
      | .error msg => some ((s.resume id).chainFailed id p now msg diskInCatch)
    | _ => none

end Server

/-- `tx.wait()` resolves, the append of the accepted record throws and the append in the `catch` goes
through. -/
def Contradicts (id : ℕ) : Action → Prop
  | .wait i _ (.ok _) (.error _) (.ok _) => i = id
  | _ => False

def server (E : Ethers) : Lts Server Action := ⟨Server.init, Server.step E⟩

/-! ## What a step does -/

/-- A call carries the fields of one request, whose proof is the MAC of one of the two payloads built
from these very fields, and the hash of that payload. -/
structure Verified (E : Ethers) (body : Body) (call : Call) : Prop where
  result : call.result = sealedSkyTextFromBody body
  timestamp : call.timestamp = body.timestamp
  imageHash : call.imageHash = body.imageHash
  proof : ∃ timestamp imageHash, call.timestamp.toText = some timestamp ∧
    call.imageHash.toText = some imageHash ∧
    ∃ p ∈ [call.result ++ 124 :: (timestamp ++ 124 :: imageHash),
        js "pothole_detected" ++ 124 :: (call.result ++ 124 :: (timestamp ++ 124 :: imageHash))],
      normalizeProof body.proof = some (hmacHex DEVICE_SECRET p) ∧
      call.payloadHash = E.keccak256 (utf8 p)

/-- A record carries the fields of a request. -/
structure About (body : Body) (record : HistoryRecord) : Prop where
  sealedSkyText : record.sealedSkyText = sealedSkyTextFromBody body
  timestamp : record.timestamp = body.timestamp
  imageHash : record.imageHash = body.imageHash

/-- What a handler answers without an `await`. -/
structure Answers (body : Option Body) (record : HistoryRecord) (response : Response) : Prop where
  about : ∃ b, body = some b ∧ About b record
  status : record.status ≠ .accepted
  code : response.code ≠ 500

/-- Nothing, or one entry of a request. -/
def entry {α : Type} (id : ℕ) (x : Option α) : List (ℕ × α) := x.toList.map fun x => (id, x)

@[simp] theorem mem_entry {α : Type} {id i : ℕ} {x : Option α} {y : α} :
    (i, y) ∈ entry id x ↔ i = id ∧ x = some y := by
  cases x with
  | none => simp [entry]
  | some x => simp [entry, Prod.ext_iff, eq_comm]

/-- A log with one more line. -/
theorem mem_log {α : Type} {l : List (ℕ × α)} {id i : ℕ} {x y : α} :
    (i, y) ∈ l ++ [(id, x)] ↔ (i, y) ∈ l ∨ i = id ∧ y = x := by
  simp

theorem mem_log_entry {α : Type} {l : List (ℕ × α)} {id i : ℕ} {x : Option α} {y : α} :
    (i, y) ∈ l ++ entry id x ↔ (i, y) ∈ l ∨ i = id ∧ x = some y := by
  simp

theorem append_entry_none {α : Type} (l : List (ℕ × α)) (id : ℕ) :
    l ++ entry id (none : Option α) = l := by
  rw [entry, Option.toList_none, List.map_nil, List.append_nil]

open Server in
/-- The kinds of step, by what they do to the request they are about. -/
inductive Stepped (E : Ethers) (s : Server) : Action → Server → Prop where
  /-- answered without an `await` -/
  | entered {a id body} (record : Option HistoryRecord) (response : Response)
      (hid : id ∉ s.received.map Prod.fst) (ha : ∀ i, ¬ Contradicts i a)
      (hrecord : ∀ r, record = some r → r.status ≠ .accepted) :
      Stepped E s a { s with
        received := s.received ++ [(id, body)], history := s.history ++ entry id record
        responses := s.responses ++ [(id, response)] }
  | called {a id body p} (hid : id ∉ s.received.map Prod.fst) (ha : ∀ i, ¬ Contradicts i a)
      (hverified : Verified E body p.call) :
      Stepped E s a { s with
        received := s.received ++ [(id, some body)], calls := s.calls ++ [(id, p.call)]
        waiting := s.waiting ++ [(id, .submitInference p)] }
  | sent {a id p tx} (hid : (id, .submitInference p) ∈ s.waiting) (ha : ∀ i, ¬ Contradicts i a) :
      Stepped E s a { s with
        waiting := (s.resume id).waiting ++ [(id, .wait p tx)] }
  | failed {a id w} (record : Option HistoryRecord) (response : Response)
      (hid : (id, w) ∈ s.waiting) (ha : ∀ i, ¬ Contradicts i a)
      (hrecord : ∀ r, record = some r → r.status ≠ .accepted) :
      Stepped E s a { s with
        waiting := (s.resume id).waiting, history := s.history ++ entry id record
        responses := s.responses ++ [(id, response)] }
  /-- `tx.wait()` has resolved: `record` and `response` are those of the accepted transaction, of the
  failed one where `Contradicts` holds, or none and the error page -/
  | confirmed {a id p tx} (record : Option HistoryRecord) (response : Response)
      (hid : (id, .wait p tx) ∈ s.waiting)
      (hcase : (¬ Contradicts id a ∧ record = some (acceptedRecord p tx) ∧
          response = acceptedResponse p tx) ∨
        (Contradicts id a ∧ ∃ now msg, record = some (failedRecord p now msg) ∧
          response = failedResponse p msg) ∨
        (¬ Contradicts id a ∧ record = none ∧ response = errorPage))
      (hother : ∀ i, Contradicts i a → i = id) :
      Stepped E s a { s with
        waiting := (s.resume id).waiting, confirmed := s.confirmed ++ [(id, tx)]
        history := s.history ++ entry id record
        responses := s.responses ++ [(id, response)] }

section
variable {E : Ethers} {s t : Server}

theorem matchProof_eq_matched {payload proof p : JsString}
    (h : matchProof payload proof = .matched p) :
    p ∈ [payload, legacyPayload payload] ∧ normalizeProofHex proof = hmacHex DEVICE_SECRET p := by
  unfold matchProof at h
  simp only at h
  split at h
  · rename_i heq
    cases h
    exact ⟨List.mem_cons_self, heq⟩
  · split at h
    · rename_i heq
      cases h
      exact ⟨by simp, heq⟩
    · cases h

theorem normalizeProof_str (proof : JsString) :
    normalizeProof (.str proof) = some (normalizeProofHex proof) := by
  unfold normalizeProof
  cases proof with
  | nil => rfl
  | cons u r =>
    have htruthy : truthy (.str (u :: r)) = true := rfl
    rw [if_pos htruthy, JsValue.toText_str]
    rfl

theorem submit_eq_matched {body : Body} {p : JsString} (h : submit body = .matched p) :
    ∃ q, canonicalPayload body = some q ∧ p ∈ [q, legacyPayload q] ∧
      normalizeProof body.proof = some (hmacHex DEVICE_SECRET p) := by
  unfold submit at h
  split at h
  · cases h
  · split at h
    · cases h
    · split at h
      · rename_i payload proof hpayload hproof
        obtain ⟨hp, hmac⟩ := matchProof_eq_matched h
        have hstr : body.proof = .str proof := by
          cases hb : body.proof with
          | str s =>
            rw [hb] at hproof
            exact congrArg JsValue.str (Option.some.inj hproof)
          | _ =>
            rw [hb] at hproof
            cases hproof
        exact ⟨payload, hpayload, hp, by rw [hstr, normalizeProof_str, hmac]⟩
      · cases h

/-- What `/submit` sends to the contract is verified. -/
theorem handleSubmit_calls {receivedAt : JsString} {body : Option Body} {p : Pending}
    (h : handleSubmit E receivedAt body = .calls p) :
    ∃ b, body = some b ∧ Verified E b p.call := by
  cases body with
  | none => cases h
  | some body =>
    unfold handleSubmit at h
    simp only at h
    split at h
    · cases h
    · cases h
    · cases h
    · rename_i matched hsubmit
      split at h
      · rename_i proofNorm bytes hproof hbytes
        cases h
        obtain ⟨q, hq, hmem, hmac⟩ := submit_eq_matched hsubmit
        obtain ⟨timestamp, hts, hq⟩ := Option.bind_eq_some_iff.1 hq
        obtain ⟨imageHash, hhash, rfl⟩ := Option.map_eq_some_iff.1 hq
        refine ⟨body, rfl, rfl, rfl, rfl, timestamp, imageHash, hts, hhash, matched, hmem, hmac, ?_⟩
        exact congrArg E.keccak256 (E.toUtf8Bytes_eq _ _ hbytes)
      · cases h

theorem handleSubmit_answered {receivedAt : JsString} {body : Option Body}
    {record : HistoryRecord} {response : Response}
    (h : handleSubmit E receivedAt body = .answered record response) :
    Answers body record response := by
  cases body with
  | none => cases h
  | some body =>
    unfold handleSubmit at h
    simp only at h
    split at h
    · cases h
    · cases h
      exact ⟨⟨body, rfl, rfl, rfl, rfl⟩, by simp, by simp⟩
    · cases h
      exact ⟨⟨body, rfl, rfl, rfl, rfl⟩, by simp, by simp⟩
    · split at h
      · cases h
      · cases h

theorem handleSign_cases (receivedAt : JsString) (body : Option Body) (nc : NcResult) :
    handleSign receivedAt body nc = .threw ∨ ∃ record response,
      handleSign receivedAt body nc = .answered record response ∧ Answers body record response := by
  cases body with
  | none => exact Or.inl rfl
  | some body =>
    have hanswered : ∀ {r : Reached} (record : HistoryRecord) (response : Response),
        r = .answered record response → About body record → record.status ≠ .accepted →
        response.code ≠ 500 → r = .threw ∨ ∃ record response,
          r = .answered record response ∧ Answers (some body) record response :=
      fun record response h habout hstatus hcode =>
        Or.inr ⟨record, response, h, ⟨body, rfl, habout⟩, hstatus, hcode⟩
    unfold handleSign
    simp only
    split
    · exact Or.inl rfl
    · exact hanswered _ _ rfl ⟨rfl, rfl, rfl⟩ (by simp) (by simp)
    · split
      · exact hanswered _ _ rfl ⟨rfl, rfl, rfl⟩ (by simp) (by simp)
      · split
        · exact hanswered _ _ rfl ⟨rfl, rfl, rfl⟩ (by simp) (by simp)
        · split
          · exact hanswered _ _ rfl ⟨rfl, rfl, rfl⟩ (by simp) (by simp)
          · exact Or.inl rfl
          · split
            · split
              · exact Or.inl rfl
              · exact hanswered _ _ rfl ⟨rfl, rfl, rfl⟩ (by simp) (by simp)
            · split
              · exact Or.inl rfl
              · exact hanswered _ _ rfl ⟨rfl, rfl, rfl⟩ (by simp) (by simp)

theorem handleSign_answered {receivedAt : JsString} {body : Option Body} {nc : NcResult}
    {record : HistoryRecord} {response : Response}
    (h : handleSign receivedAt body nc = .answered record response) :
    Answers body record response := by
  obtain hthrew | ⟨record', response', hanswered, hanswers⟩ := handleSign_cases receivedAt body nc
  · rw [hthrew] at h
    cases h
  · rw [hanswered] at h
    cases h
    exact hanswers

theorem handleSign_not_calls (receivedAt : JsString) (body : Option Body) (nc : NcResult)
    (p : Pending) : handleSign receivedAt body nc ≠ .calls p := by
  intro h
  obtain hthrew | ⟨record, response, hanswered, -⟩ := handleSign_cases receivedAt body nc
  · rw [hthrew] at h
    cases h
  · rw [hanswered] at h
    cases h

theorem mem_of_waitingOf {id : ℕ} {w : Waiting} (h : s.waitingOf id = some w) :
    (id, w) ∈ s.waiting := by
  obtain ⟨⟨i, w'⟩, hfind, rfl⟩ := Option.map_eq_some_iff.1 h
  have hfst := List.find?_some hfind
  have hid : i = id := by simpa using hfst
  exact hid ▸ List.mem_of_find?_eq_some hfind

theorem answer_cases (s : Server) (id : ℕ) (record : HistoryRecord) (response : Response)
    (disk : Outcome Unit) : ∃ (record' : Option HistoryRecord) (response' : Response),
      s.answer id record response disk = { s with
        history := s.history ++ entry id record', responses := s.responses ++ [(id, response')] } ∧
      ((∃ u, disk = .ok u) ∧ record' = some record ∧ response' = response ∨
        (∃ msg, disk = .error msg) ∧ record' = none ∧ response' = errorPage) := by
  cases disk with
  | ok u => exact ⟨some record, response, rfl, Or.inl ⟨⟨u, rfl⟩, rfl, rfl⟩⟩
  | error msg =>
    refine ⟨none, errorPage, ?_, Or.inr ⟨⟨msg, rfl⟩, rfl, rfl⟩⟩
    rw [append_entry_none]
    rfl

theorem enter_cases {a : Action} {id : ℕ} {body : Option Body} {reached : Reached}
    {disk : Outcome Unit} (hid : id ∉ s.received.map Prod.fst) (ha : ∀ i, ¬ Contradicts i a)
    (hanswered : ∀ record response, reached = .answered record response →
      record.status ≠ .accepted)
    (hcalls : ∀ p, reached = .calls p → ∃ b, body = some b ∧ Verified E b p.call) :
    Stepped E s a (s.enter id body reached disk) := by
  cases reached with
  | threw =>
    have hstep : Stepped E s a { s with
        received := s.received ++ [(id, body)], history := s.history ++ entry id none
        responses := s.responses ++ [(id, errorPage)] } :=
      Stepped.entered none errorPage hid ha (by simp)
    rwa [append_entry_none] at hstep
  | answered record response =>
    obtain ⟨record', response', heq, hcase⟩ :=
      answer_cases { s with received := s.received ++ [(id, body)] } id record response disk
    unfold Server.enter
    simp only
    rw [heq]
    refine Stepped.entered record' response' hid ha ?_
    obtain ⟨-, rfl, -⟩ | ⟨-, rfl, -⟩ := hcase
    · rintro r ⟨⟩
      exact hanswered record response rfl
    · rintro r ⟨⟩
  | calls p =>
    obtain ⟨b, rfl, hverified⟩ := hcalls p rfl
    exact Stepped.called hid ha hverified

theorem chainFailed_cases {a : Action} {id : ℕ} {w : Waiting} {p : Pending} {now msg : JsString}
    {disk : Outcome Unit} (hid : (id, w) ∈ s.waiting) (ha : ∀ i, ¬ Contradicts i a) :
    Stepped E s a ((s.resume id).chainFailed id p now msg disk) := by
  obtain ⟨record, response, heq, hcase⟩ := answer_cases (s.resume id) id (failedRecord p now msg)
    (failedResponse p msg) disk
  unfold Server.chainFailed
  rw [heq]
  refine Stepped.failed record response hid ha ?_
  obtain ⟨-, rfl, -⟩ | ⟨-, rfl, -⟩ := hcase
  · rintro r ⟨⟩
    exact fun h => by cases h
  · rintro r ⟨⟩

theorem chainConfirmed_cases {id : ℕ} {p : Pending} {now tx : JsString}
    {disk diskInCatch : Outcome Unit} (hid : (id, .wait p tx) ∈ s.waiting) :
    Stepped E s (.wait id now (.ok ()) disk diskInCatch)
      ((s.resume id).chainConfirmed id p now tx disk diskInCatch) := by
  have hother : ∀ i, Contradicts i (.wait id now (.ok ()) disk diskInCatch) → i = id := by
    intro i h
    cases disk <;> cases diskInCatch <;> first | exact h.elim | exact h.symm
  cases disk with
  | ok u =>
    exact Stepped.confirmed (some (acceptedRecord p tx)) (acceptedResponse p tx) hid
      (Or.inl ⟨fun h => h, rfl, rfl⟩) hother
  | error msg =>
    cases diskInCatch with
    | ok u =>
      exact Stepped.confirmed (some (failedRecord p now msg)) (failedResponse p msg) hid
        (Or.inr (Or.inl ⟨rfl, now, msg, rfl, rfl⟩)) hother
    | error msg' =>
      have hstep := Stepped.confirmed (E := E)
        (a := .wait id now (.ok ()) (.error msg) (.error msg')) none errorPage hid
        (Or.inr (Or.inr ⟨fun h => h, rfl, rfl⟩)) hother
      rwa [append_entry_none] at hstep

/-- Which function of the server a step runs. -/
inductive Ran (E : Ethers) (s : Server) : Action → Server → Prop where
  | submit {id receivedAt body disk} (hid : id ∉ s.received.map Prod.fst) :
    Ran E s (.submit id receivedAt body disk) (s.enter id body (handleSubmit E receivedAt body) disk)
  | signInference {id receivedAt body nc disk} (hid : id ∉ s.received.map Prod.fst) :
    Ran E s (.signInference id receivedAt body nc disk)
      (s.enter id body (handleSign receivedAt body nc) disk)
  | sent {id now disk p} (tx : JsString) (hid : (id, .submitInference p) ∈ s.waiting) :
    Ran E s (.submitInference id now (.ok tx) disk) { s.resume id with
      waiting := (s.resume id).waiting ++ [(id, .wait p tx)] }
  | notSent {id now msg disk p} (hid : (id, .submitInference p) ∈ s.waiting) :
    Ran E s (.submitInference id now (.error msg) disk) ((s.resume id).chainFailed id p now msg disk)
  | confirmed {id now disk diskInCatch p tx} (hid : (id, .wait p tx) ∈ s.waiting) :
    Ran E s (.wait id now (.ok ()) disk diskInCatch)
      ((s.resume id).chainConfirmed id p now tx disk diskInCatch)
  | notConfirmed {id now msg disk diskInCatch p tx} (hid : (id, .wait p tx) ∈ s.waiting) :
    Ran E s (.wait id now (.error msg) disk diskInCatch)
      ((s.resume id).chainFailed id p now msg diskInCatch)

theorem ran_of_step {a : Action} (h : s.step E a = some t) : Ran E s a t := by
  cases a with
  | submit id receivedAt body disk =>
    obtain ⟨hid, h⟩ := Option.ite_none_left_eq_some.1 h
    cases h
    exact .submit hid
  | signInference id receivedAt body nc disk =>
    obtain ⟨hid, h⟩ := Option.ite_none_left_eq_some.1 h
    cases h
    exact .signInference hid
  | submitInference id now tx disk =>
    unfold Server.step at h
    simp only at h
    split at h
    · rename_i p hwaiting
      have hid := mem_of_waitingOf hwaiting
      cases tx with
      | ok tx =>
        cases h
        exact .sent tx hid
      | error msg =>
        cases h
        exact .notSent hid
    · cases h
  | wait id now receipt disk diskInCatch =>
    unfold Server.step at h
    simp only at h
    split at h
    · rename_i p tx hwaiting
      have hid := mem_of_waitingOf hwaiting
      cases receipt with
      | ok u =>
        cases h
        exact .confirmed hid
      | error msg =>
        cases h
        exact .notConfirmed hid
    · cases h

/-- Every step is of one of these kinds. -/
theorem step_cases {a : Action} (h : s.step E a = some t) : Stepped E s a t := by
  cases ran_of_step h with
  | submit hid =>
    exact enter_cases hid (fun _ h => h) (fun _ _ h => (handleSubmit_answered h).status)
      fun _ => handleSubmit_calls
  | signInference hid =>
    exact enter_cases hid (fun _ h => h) (fun _ _ h => (handleSign_answered h).status)
      fun p h => absurd h (handleSign_not_calls _ _ _ p)
  | sent tx hid => exact Stepped.sent hid fun _ h => h
  | notSent hid => exact chainFailed_cases hid fun _ h => h
  | confirmed hid => exact chainConfirmed_cases hid
  | notConfirmed hid => exact chainFailed_cases hid fun _ h => h

end

/-! ## One submission of a genuine proof -/

/-- `ethers` on the payload below. -/
def ethersOf : Ethers where
  toUtf8Bytes s := some (utf8 s)
  keccak256 _ := js "0xb456237c5fa3c729ee1ae6eec3dab925d5e48e8e2a6c17e0cd980415ba3a2c3a"
  toUtf8Bytes_eq _ _ h := (Option.some.inj h).symm

def genuineBody : Body :=
  { form "a" "1" "b" with proof := .str (hmacHex DEVICE_SECRET (js "a|1|b")) }

def genuinePending : Pending where
  receivedAt := js "2026-05-09T12:00:00.000Z"
  sealedSkyText := js "a"
  timestamp := .str (js "1")
  imageHash := .str (js "b")
  proofNorm := hmacHex DEVICE_SECRET (js "a|1|b")
  matchedPayload := js "a|1|b"
  payloadHash := js "0xb456237c5fa3c729ee1ae6eec3dab925d5e48e8e2a6c17e0cd980415ba3a2c3a"

/-- A proof as the device makes it goes to the contract. -/
theorem handleSubmit_proved {E : Ethers} {body : Body} {payload receivedAt : JsString}
    {bytes : List UInt8} (h : Accepted body) (hcanonical : canonicalPayload body = some payload)
    (hproof : body.proof = .str (hmacHex DEVICE_SECRET payload))
    (hbytes : E.toUtf8Bytes payload = some bytes) :
    handleSubmit E receivedAt (some body) =
      .calls ⟨receivedAt, sealedSkyTextFromBody body, body.timestamp, body.imageHash,
        hmacHex DEVICE_SECRET payload, payload, E.keccak256 bytes⟩ := by
  have hnorm : normalizeProof body.proof = some (hmacHex DEVICE_SECRET payload) := by
    rw [hproof, normalizeProof_str, hmacHex, normalizeProofHex_hexText]
  have htext : isText body.proof = true := by
    refine isText_iff.2 ⟨_, hproof, fun hnil => ?_⟩
    rw [hmacHex, trim_hexText] at hnil
    have hlen := congrArg List.length hnil
    rw [hexText_length, hmac_length] at hlen
    cases hlen
  have hauth : authenticatedPayload body = some payload := by
    rw [authenticatedPayload, if_pos ⟨h.timestamp, h.imageHash, htext⟩, hcanonical]
  obtain ⟨proof, hreceived, hmatch⟩ := submit_of_authenticatedPayload hauth
  have hsubmit : submit body = .matched payload := by
    rw [hreceived, normalizeProof_str] at hnorm
    rw [hmatch, matchProof]
    simp only [Option.some.inj hnorm, if_true]
  unfold handleSubmit
  simp only [hsubmit, hnorm, hbytes]

theorem handleSubmit_genuine :
    handleSubmit ethersOf (js "2026-05-09T12:00:00.000Z") (some genuineBody) =
      .calls genuinePending := by
  have hform : Accepted (form "a" "1" "b") := accepted_form (by decide)
  have hcanonical : canonicalPayload genuineBody = some (js "a|1|b") := by decide
  exact handleSubmit_proved ⟨hform.timestamp, hform.imageHash⟩ hcanonical rfl rfl

/-- The submission up to a resolved `tx.wait()`. -/
def submission (disk diskInCatch : Outcome Unit) : List Action :=
  [.submit 0 (js "2026-05-09T12:00:00.000Z") (some genuineBody) (.ok ()),
    .submitInference 0 (js "2026-05-09T12:00:01.000Z") (.ok (js "0x01")) (.ok ()),
    .wait 0 (js "2026-05-09T12:00:02.000Z") (.ok ()) disk diskInCatch]

theorem run_submission (disk diskInCatch : Outcome Unit) :
    (server ethersOf).run Server.init (submission disk diskInCatch) =
      some ((Server.mk [(0, some genuineBody)] [] [(0, genuinePending.call)] [] [] []).chainConfirmed
        0 genuinePending (js "2026-05-09T12:00:02.000Z") (js "0x01") disk diskInCatch) := by
  have hsubmit : (server ethersOf).step Server.init
      (.submit 0 (js "2026-05-09T12:00:00.000Z") (some genuineBody) (.ok ())) =
        some ⟨[(0, some genuineBody)], [], [(0, genuinePending.call)], [], [],
          [(0, .submitInference genuinePending)]⟩ := by
    change some (Server.init.enter 0 (some genuineBody) (handleSubmit ethersOf _ _) _) = _
    rw [handleSubmit_genuine]
    rfl
  exact (Lts.run_cons _).2 ⟨_, hsubmit, rfl⟩

/-! ## Only verified claims reach the chain -/

/-- An accepted record carries what was called with, and the transaction. -/
structure Belongs (record : HistoryRecord) (call : Call) (tx : JsString) : Prop where
  sealedSkyText : record.sealedSkyText = call.result
  timestamp : record.timestamp = call.timestamp
  imageHash : record.imageHash = call.imageHash
  payloadHash : record.payloadHash = some call.payloadHash
  tx : record.tx = some tx

structure Inv (E : Ethers) (s : Server) : Prop where
  calls : ∀ id call, (id, call) ∈ s.calls →
    ∃ body, (id, some body) ∈ s.received ∧ Verified E body call
  waiting : ∀ id w, (id, w) ∈ s.waiting → (id, w.pending.call) ∈ s.calls
  accepted : ∀ id record, (id, record) ∈ s.history → record.status = .accepted →
    ∃ call tx, (id, call) ∈ s.calls ∧ (id, tx) ∈ s.confirmed ∧ Belongs record call tx

section
variable {E : Ethers} {s t : Server}

theorem mem_resume {id i : ℕ} {w : Waiting} :
    (i, w) ∈ (s.resume id).waiting ↔ (i, w) ∈ s.waiting ∧ i ≠ id := by
  simp [Server.resume]

theorem Stepped.inv {a : Action} (h : Stepped E s a t) (hinv : Inv E s) : Inv E t := by
  obtain ⟨hcalls, hwaiting, haccepted⟩ := hinv
  cases h with
  | @entered id body record response _ _ hrecord =>
    refine ⟨fun i call hmem => ?_, hwaiting, fun i r hmem hstatus => ?_⟩
    · obtain ⟨b, hb, hverified⟩ := hcalls i call hmem
      exact ⟨b, List.mem_append_left _ hb, hverified⟩
    · rcases mem_log_entry.1 hmem with hmem | ⟨-, hr⟩
      · exact haccepted i r hmem hstatus
      · exact absurd hstatus (hrecord r hr)
  | @called id body p _ _ hverified =>
    refine ⟨fun i call hmem => ?_, fun i w hmem => ?_, fun i r hmem hstatus => ?_⟩
    · rcases mem_log.1 hmem with hmem | ⟨rfl, rfl⟩
      · obtain ⟨b, hb, hverified'⟩ := hcalls i call hmem
        exact ⟨b, List.mem_append_left _ hb, hverified'⟩
      · exact ⟨body, by simp, hverified⟩
    · rcases mem_log.1 hmem with hmem | ⟨rfl, rfl⟩
      · exact List.mem_append_left _ (hwaiting i w hmem)
      · exact List.mem_append_right _ (List.mem_singleton_self _)
    · obtain ⟨call, tx, hcall, htx, hbelongs⟩ := haccepted i r hmem hstatus
      exact ⟨call, tx, List.mem_append_left _ hcall, htx, hbelongs⟩
  | @sent id p tx hid _ =>
    refine ⟨hcalls, fun i w hmem => ?_, haccepted⟩
    rcases mem_log.1 hmem with hmem | ⟨rfl, rfl⟩
    · exact hwaiting i w (mem_resume.1 hmem).1
    · exact hwaiting i (.submitInference p) hid
  | @failed id w record response hid _ hrecord =>
    refine ⟨hcalls, fun i w hmem => hwaiting i w (mem_resume.1 hmem).1, fun i r hmem hstatus => ?_⟩
    rcases mem_log_entry.1 hmem with hmem | ⟨-, hr⟩
    · exact haccepted i r hmem hstatus
    · exact absurd hstatus (hrecord r hr)
  | @confirmed id p tx record response hid hcase _ =>
    refine ⟨hcalls, fun i w hmem => hwaiting i w (mem_resume.1 hmem).1, fun i r hmem hstatus => ?_⟩
    rcases mem_log_entry.1 hmem with hmem | ⟨rfl, hr⟩
    · obtain ⟨call, tx', hcall, htx, hbelongs⟩ := haccepted i r hmem hstatus
      exact ⟨call, tx', hcall, List.mem_append_left _ htx, hbelongs⟩
    · obtain ⟨-, rfl, -⟩ | ⟨-, now, msg, rfl, -⟩ | ⟨-, rfl, -⟩ := hcase
      · cases hr
        exact ⟨p.call, tx, hwaiting i (.wait p tx) hid,
          List.mem_append_right _ (List.mem_singleton_self _), rfl, rfl, rfl, rfl, rfl⟩
      · cases hr
        cases hstatus
      · cases hr

theorem inv_init (E : Ethers) : Inv E Server.init := by
  refine ⟨?_, ?_, ?_⟩
  all_goals
    intro id x h
    cases h

theorem run_inv {as : List Action} (hrun : (server E).run Server.init as = some s) : Inv E s := by
  have hstep : ∀ s a t, Inv E s → (server E).step s a = some t → Inv E t :=
    fun _ _ _ hs hstep => (step_cases hstep).inv hs
  exact Lts.run_inv hstep (inv_init E) hrun

/-- **Only verified claims reach the chain**, in every run; and an accepted record belongs to such a
call, whose transaction was confirmed. -/
theorem calls_verified {as : List Action} (hrun : (server E).run Server.init as = some s) :
    (∀ id call, (id, call) ∈ s.calls →
      ∃ body, (id, some body) ∈ s.received ∧ Verified E body call) ∧
    ∀ id record, (id, record) ∈ s.history → record.status = .accepted →
      ∃ call tx, (id, call) ∈ s.calls ∧ (id, tx) ∈ s.confirmed ∧ Belongs record call tx := by
  have hinv := run_inv hrun
  exact ⟨hinv.calls, hinv.accepted⟩

theorem calls_verified_submission : ∃ s,
    (server ethersOf).run Server.init (submission (.ok ()) (.ok ())) = some s ∧
      (0, genuinePending.call) ∈ s.calls ∧
      (0, acceptedRecord genuinePending (js "0x01")) ∈ s.history ∧
      (∀ id call, (id, call) ∈ s.calls →
        ∃ body, (id, some body) ∈ s.received ∧ Verified ethersOf body call) ∧
      ∀ id record, (id, record) ∈ s.history → record.status = .accepted →
        ∃ call tx, (id, call) ∈ s.calls ∧ (id, tx) ∈ s.confirmed ∧ Belongs record call tx :=
  ⟨_, run_submission _ _, List.mem_singleton_self _, List.mem_singleton_self _,
    calls_verified (run_submission _ _)⟩

end

/-! ## A confirmed transaction answered as a failed one -/

/-- Once `tx.wait()` has resolved for a request, no record says that its submission to the chain
failed, and no answer says `success: false`. -/
def Consistent (s : Server) (id : ℕ) : Prop :=
  id ∈ s.confirmed.map Prod.fst →
    (∀ record, (id, record) ∈ s.history → record.reason ≠ some (js "chain_submit_failed")) ∧
    ∀ response, (id, response) ∈ s.responses → response.success ≠ some false

/-- A request that has come in and waits no more. -/
def Settled (s : Server) (id : ℕ) : Prop :=
  id ∈ s.received.map Prod.fst ∧ ∀ w, (id, w) ∉ s.waiting

/-- Only settled requests have something to show. -/
structure Quiet (s : Server) : Prop where
  waiting : ∀ id w, (id, w) ∈ s.waiting → id ∈ s.received.map Prod.fst
  history : ∀ id record, (id, record) ∈ s.history → Settled s id
  responses : ∀ id response, (id, response) ∈ s.responses → Settled s id
  confirmed : ∀ id tx, (id, tx) ∈ s.confirmed → Settled s id

section
variable {E : Ethers} {s t : Server} {a : Action}

theorem Stepped.settled (h : Stepped E s a t) {i : ℕ} (hi : Settled s i) : Settled t i := by
  obtain ⟨hreceived, hwaiting⟩ := hi
  cases h with
  | @entered id body record response hid =>
    exact ⟨by simpa using Or.inl (by simpa using hreceived), hwaiting⟩
  | @called id body p hid =>
    refine ⟨by simpa using Or.inl (by simpa using hreceived), fun w hmem => ?_⟩
    rcases mem_log.1 hmem with hmem | ⟨rfl, -⟩
    · exact hwaiting w hmem
    · exact hid hreceived
  | @sent id p tx hid =>
    refine ⟨hreceived, fun w hmem => ?_⟩
    rcases mem_log.1 hmem with hmem | ⟨rfl, -⟩
    · exact hwaiting w (mem_resume.1 hmem).1
    · exact hwaiting _ hid
  | failed => exact ⟨hreceived, fun w hmem => hwaiting w (mem_resume.1 hmem).1⟩
  | confirmed => exact ⟨hreceived, fun w hmem => hwaiting w (mem_resume.1 hmem).1⟩

/-- What is said of the requests in a log stays true when a request it is true of is added. -/
theorem log_append {α : Type} {l : List (ℕ × α)} {id : ℕ} {x : α} {P : ℕ → Prop}
    (hold : ∀ i y, (i, y) ∈ l → P i) (hnew : P id) : ∀ i y, (i, y) ∈ l ++ [(id, x)] → P i := by
  intro i y hmem
  rcases mem_log.1 hmem with hmem | ⟨rfl, -⟩
  · exact hold i y hmem
  · exact hnew

theorem history_append {l : List (ℕ × HistoryRecord)} {id : ℕ} {record : Option HistoryRecord}
    {P : ℕ → Prop} (hold : ∀ i r, (i, r) ∈ l → P i) (hnew : P id) :
    ∀ i r, (i, r) ∈ l ++ entry id record → P i := by
  intro i r hmem
  rcases mem_log_entry.1 hmem with hmem | ⟨rfl, -⟩
  · exact hold i r hmem
  · exact hnew

theorem Stepped.quiet (h : Stepped E s a t) (hs : Quiet s) : Quiet t := by
  have hkeep := fun i hi => h.settled (i := i) hi
  obtain ⟨hwaiting, hhistory, hresponses, hconfirmed⟩ := hs
  replace hhistory := fun i r hmem => hkeep i (hhistory i r hmem)
  replace hresponses := fun i r hmem => hkeep i (hresponses i r hmem)
  replace hconfirmed := fun i tx hmem => hkeep i (hconfirmed i tx hmem)
  cases h with
  | @entered id body record response hid =>
    have hnew : Settled { s with
        received := s.received ++ [(id, body)], history := s.history ++ entry id record
        responses := s.responses ++ [(id, response)] } id :=
      ⟨by simp, fun w hmem => hid (hwaiting id w hmem)⟩
    refine ⟨fun i w hmem => ?_, history_append hhistory hnew, log_append hresponses hnew,
      hconfirmed⟩
    simpa using Or.inl (by simpa using hwaiting i w hmem)
  | @called id body p hid =>
    refine ⟨log_append (fun i w hmem => ?_) ?_, hhistory, hresponses, hconfirmed⟩
    · simpa using Or.inl (by simpa using hwaiting i w hmem)
    · simp
  | @sent id p tx hid =>
    refine ⟨log_append (fun i w hmem => ?_) ?_, hhistory, hresponses, hconfirmed⟩
    · exact hwaiting i w (mem_resume.1 hmem).1
    · exact hwaiting _ _ hid
  | @failed id w record response hid =>
    have hnew : Settled { s with
        waiting := (s.resume id).waiting, history := s.history ++ entry id record
        responses := s.responses ++ [(id, response)] } id :=
      ⟨hwaiting id w hid, fun w hmem => (mem_resume.1 hmem).2 rfl⟩
    exact ⟨fun i w hmem => hwaiting i w (mem_resume.1 hmem).1, history_append hhistory hnew,
      log_append hresponses hnew, hconfirmed⟩
  | @confirmed id p tx record response hid =>
    have hnew : Settled { s with
        waiting := (s.resume id).waiting, confirmed := s.confirmed ++ [(id, tx)]
        history := s.history ++ entry id record
        responses := s.responses ++ [(id, response)] } id :=
      ⟨hwaiting id _ hid, fun w hmem => (mem_resume.1 hmem).2 rfl⟩
    exact ⟨fun i w hmem => hwaiting i w (mem_resume.1 hmem).1, history_append hhistory hnew,
      log_append hresponses hnew, log_append hconfirmed hnew⟩

theorem quiet_init : Quiet Server.init := by
  refine ⟨?_, ?_, ?_, ?_⟩
  all_goals
    intro id x h
    cases h

theorem mem_fst_iff {α : Type} {l : List (ℕ × α)} {id : ℕ} :
    id ∈ l.map Prod.fst ↔ ∃ x, (id, x) ∈ l := by
  simp

/-- Consistency is about what a request has to show once it is confirmed. -/
theorem consistent_congr {i : ℕ} (hconfirmed : ∀ tx, (i, tx) ∈ t.confirmed ↔ (i, tx) ∈ s.confirmed)
    (hhistory : i ∈ s.confirmed.map Prod.fst → ∀ r, (i, r) ∈ t.history ↔ (i, r) ∈ s.history)
    (hresponses : i ∈ s.confirmed.map Prod.fst →
      ∀ r, (i, r) ∈ t.responses ↔ (i, r) ∈ s.responses) :
    Consistent t i ↔ Consistent s i := by
  have hmem : i ∈ t.confirmed.map Prod.fst ↔ i ∈ s.confirmed.map Prod.fst := by
    rw [mem_fst_iff, mem_fst_iff]
    exact exists_congr hconfirmed
  unfold Consistent
  rw [hmem]
  refine imp_congr_right fun hi => and_congr ?_ ?_
  · exact forall_congr' fun r => by rw [hhistory hi r]
  · exact forall_congr' fun r => by rw [hresponses hi r]

/-- What a step adds for one request is nothing for another. -/
theorem mem_append_entry {α : Type} {l : List (ℕ × α)} {x : Option α} {id i : ℕ} {y : α}
    (hne : i ≠ id) : (i, y) ∈ l ++ entry id x ↔ (i, y) ∈ l := by
  simp [hne]

theorem mem_append_one {α : Type} {l : List (ℕ × α)} {x y : α} {id i : ℕ} (hne : i ≠ id) :
    (i, y) ∈ l ++ [(id, x)] ↔ (i, y) ∈ l := by
  simp [hne]

/-- One step keeps a request consistent, or breaks it by what `Contradicts` says. -/
theorem Stepped.consistent (h : Stepped E s a t) (hs : Quiet s) (i : ℕ) :
    Consistent t i ↔ Consistent s i ∧ ¬ Contradicts i a := by
  have hsettled : i ∈ s.confirmed.map Prod.fst → Settled s i := fun hi => by
    obtain ⟨tx, htx⟩ := mem_fst_iff.1 hi
    exact hs.confirmed i tx htx
  cases h with
  | @entered id body record response hid ha =>
    have hne : i ∈ s.confirmed.map Prod.fst → i ≠ id := by
      rintro hi rfl
      exact hid (hsettled hi).1
    refine Iff.trans (consistent_congr ?_ ?_ ?_) (and_iff_left (ha i)).symm
    · exact fun _ => Iff.rfl
    · exact fun hi _ => mem_append_entry (hne hi)
    · exact fun hi _ => mem_append_one (hne hi)
  | @called id body p hid ha =>
    exact (consistent_congr (fun _ => Iff.rfl) (fun _ _ => Iff.rfl) fun _ _ => Iff.rfl).trans
      (and_iff_left (ha i)).symm
  | @sent id p tx hid ha =>
    exact (consistent_congr (fun _ => Iff.rfl) (fun _ _ => Iff.rfl) fun _ _ => Iff.rfl).trans
      (and_iff_left (ha i)).symm
  | @failed id w record response hid ha =>
    have hne : i ∈ s.confirmed.map Prod.fst → i ≠ id := by
      rintro hi rfl
      exact (hsettled hi).2 w hid
    refine Iff.trans (consistent_congr ?_ ?_ ?_) (and_iff_left (ha i)).symm
    · exact fun _ => Iff.rfl
    · exact fun hi _ => mem_append_entry (hne hi)
    · exact fun hi _ => mem_append_one (hne hi)
  | @confirmed id p tx record response hid hcase hother =>
    by_cases hi : i = id
    · subst hi
      -- the request has nothing to show yet
      have hvacuous : Consistent s i := fun hi => absurd hid ((hsettled hi).2 _)
      have hhistory : ∀ r, (i, r) ∈ s.history ++ entry i record ↔ record = some r := fun r => by
        rw [List.mem_append, mem_entry]
        exact ⟨fun h => h.elim (fun h => absurd hid ((hs.history i r h).2 _)) And.right,
          fun h => Or.inr ⟨rfl, h⟩⟩
      have hresponses : ∀ r, (i, r) ∈ s.responses ++ [(i, response)] ↔ r = response := fun r => by
        rw [List.mem_append, List.mem_singleton]
        exact ⟨fun h => h.elim (fun h => absurd hid ((hs.responses i r h).2 _))
          fun h => (Prod.mk.inj h).2, fun h => Or.inr (h ▸ rfl)⟩
      unfold Consistent
      simp only [hhistory, hresponses]
      obtain ⟨hno, rfl, rfl⟩ | ⟨hyes, now, msg, rfl, rfl⟩ | ⟨hno, rfl, rfl⟩ := hcase
      · refine ⟨fun _ => ⟨hvacuous, hno⟩, fun _ _ => ⟨?_, ?_⟩⟩
        · rintro r ⟨⟩
          simp [acceptedRecord]
        · rintro r rfl
          simp [acceptedResponse]
      · refine ⟨fun h => ?_, fun h => absurd hyes h.2⟩
        exact absurd rfl ((h (by simp)).1 _ rfl)
      · refine ⟨fun _ => ⟨hvacuous, hno⟩, fun _ _ => ⟨?_, ?_⟩⟩
        · rintro r ⟨⟩
        · rintro r rfl
          simp [errorPage]
    · exact (consistent_congr (fun _ => mem_append_one hi) (fun _ _ => mem_append_entry hi)
        fun _ _ => mem_append_one hi).trans (and_iff_left fun h => hi (hother i h)).symm

theorem run_consistent_of_quiet {as : List Action} (hs : Quiet s)
    (hrun : (server E).run s as = some t) (i : ℕ) :
    Consistent t i ↔ Consistent s i ∧ ∀ a ∈ as, ¬ Contradicts i a := by
  induction as generalizing s with
  | nil =>
    cases hrun
    simp
  | cons a as ih =>
    obtain ⟨m, hm, hrun⟩ := (Lts.run_cons _).1 hrun
    have hstep : Stepped E s a m := step_cases hm
    rw [ih (hstep.quiet hs) hrun, hstep.consistent hs i, List.forall_mem_cons, and_assoc]

/-- **A request is answered and recorded consistently** exactly when its accepted record was not
refused by the disk while the record of the `catch` went through. -/
theorem run_consistent_iff {as : List Action} (hrun : (server E).run Server.init as = some s)
    (i : ℕ) : Consistent s i ↔ ∀ a ∈ as, ¬ Contradicts i a := by
  have hinit : Consistent Server.init i := by
    rintro ⟨⟩
  rw [run_consistent_of_quiet quiet_init hrun i]
  exact and_iff_right hinit

/-- The transaction is confirmed, the history file cannot be written once, and the `catch` records
and answers a failure. -/
theorem submission_contradicted : ∃ s,
    (server ethersOf).run Server.init
        (submission (.error (js "ENOSPC: no space left on device, write")) (.ok ())) = some s ∧
      (0, js "0x01") ∈ s.confirmed ∧
      (∃ record, (0, record) ∈ s.history ∧
        record.reason = some (js "chain_submit_failed")) ∧
      (∃ response, (0, response) ∈ s.responses ∧ response.success = some false) ∧
      ¬ Consistent s 0 := by
  refine ⟨_, run_submission _ _, List.mem_singleton_self _, ⟨_, List.mem_singleton_self _, rfl⟩,
    ⟨_, List.mem_singleton_self _, rfl⟩, fun h => ?_⟩
  exact absurd rfl ((h (List.mem_singleton_self _)).1 _ (List.mem_singleton_self _))

theorem run_consistent_submission : ∃ s,
    (server ethersOf).run Server.init (submission (.ok ()) (.ok ())) = some s ∧
      0 ∈ s.confirmed.map Prod.fst ∧
      (Consistent s 0 ↔ ∀ a ∈ submission (.ok ()) (.ok ()), ¬ Contradicts 0 a) :=
  ⟨_, run_submission _ _, List.mem_singleton_self _, run_consistent_iff (run_submission _ _) 0⟩

end

end SealedSky.Backend
