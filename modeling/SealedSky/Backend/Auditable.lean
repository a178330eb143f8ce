import SealedSky.Backend.Server
import SealedSky.Oracle.Contract
import SealedSky.Js.BigInt

/-!
# From a submission to its attestation (`backend/server.js:377-391`, `TrustedEdgeOracle.sol:55`)

The backend together with the contract that it calls. `ethers` makes a transaction of the arguments of
a call, which is mined at any later point among the transactions of others, and `tx.wait()` resolves
only for one that was mined and did not revert. The same `timestamp` of the request is hashed as a
text and stored as a number.

* `auditable_iff` — for one call.
* `run_auditable_iff` — for which requests the hash can be computed again from the stored fields.
-/
namespace SealedSky.Backend

open Js Oracle

/-- What `ethers` makes of the arguments of `submitInference(string,string,uint256,string,bytes32)`,
`none` where it throws: `BigInt` of a string, and of the numbers only the safe integers. -/
structure Abi (E : Ethers) where
  keccak : List UInt8 → Bytes32
  uint256 : JsValue → Option Uint256
  bytes32 : JsString → Option Bytes32
  uint256_str : ∀ s n, uint256 (.str s) = some n → bigInt s = some (n.toNat : ℤ)
  uint256_num : ∀ x n, uint256 (.num x) = some n →
    ∃ d, x = .fin d ∧ d.val = (n.toNat : ℚ) ∧ n.toNat < 2 ^ 53
  uint256_other : ∀ v, (∀ s, v ≠ .str s) → (∀ x, v ≠ .num x) → uint256 v = none
  bytes32_keccak : ∀ bs, bytes32 (E.keccak256 bs) = some (keccak bs)

/-- `result|timestamp|imageHash`, and the same behind `pothole_detected|`. -/
def payloadsOf (result timestamp imageHash : JsString) : List JsString :=
  let canonical := result ++ 124 :: (timestamp ++ 124 :: imageHash)
  [canonical, legacyPayload canonical]

/-- The bytes that an auditor hashes for an attestation. -/
def auditTexts (att : Attestation) : List (List UInt8) :=
  let canonical := att.result ++ 124 :: (utf8 (decimal att.timestamp.toNat) ++ 124 :: att.imageHash)
  [canonical, utf8 LEGACY_CONTEXT_PREFIX ++ 124 :: canonical]

/-- A number, or a text of decimal digits without a leading zero. -/
def plainTimestamp : JsValue → Bool
  | .str s => isDecimal s
  | _ => true

namespace Abi

variable {E : Ethers} (abi : Abi E)

/-- The transaction of a call. -/
def encode (sender : Address) (call : Call) : Option Transaction := do
  let deviceId ← E.toUtf8Bytes call.deviceId
  let result ← E.toUtf8Bytes call.result
  let timestamp ← abi.uint256 call.timestamp
  let imageHash ← call.imageHash.str?.bind E.toUtf8Bytes
  let payloadHash ← abi.bytes32 call.payloadHash
  some (.submitInference sender deviceId result timestamp imageHash payloadHash)

/-- The hash of the attestation is that of one of the two texts of its own fields. -/
def Auditable (att : Attestation) : Prop := ∃ t ∈ auditTexts att, att.payloadHash = abi.keccak t

/-- The hash has no collision of a payload of the body with a text of the attestation. -/
def NoCollision (body : Body) (att : Attestation) : Prop :=
  ∀ p ∈ payloads body, ∀ t ∈ auditTexts att, abi.keccak (utf8 p) = abi.keccak t → utf8 p = t

end Abi

/-! ## One call -/

section
variable {E : Ethers} {abi : Abi E} {call : Call} {att : Attestation} {body : Body}

theorem utf8_bar (a b : JsString) : utf8 (a ++ 124 :: b) = utf8 a ++ 124 :: utf8 b := by
  rw [utf8, toWellFormed_append (by decide) (by decide), Utf8.encode_append]
  rfl

/-- What a call stores, field by field. -/
structure Encoded (abi : Abi E) (call : Call) (att : Attestation) : Prop where
  result : att.result = utf8 call.result
  timestamp : abi.uint256 call.timestamp = some att.timestamp
  imageHash : ∃ s, call.imageHash = .str s ∧ att.imageHash = utf8 s
  payloadHash : abi.bytes32 call.payloadHash = some att.payloadHash

theorem encoded_of_encode {sender : Address} {txn : Transaction}
    (h : abi.encode sender call = some txn) (hatt : txn.stores = some att) :
    Encoded abi call att := by
  obtain ⟨deviceId, -, h⟩ := Option.bind_eq_some_iff.1 h
  obtain ⟨result, hresult, h⟩ := Option.bind_eq_some_iff.1 h
  obtain ⟨timestamp, htimestamp, h⟩ := Option.bind_eq_some_iff.1 h
  obtain ⟨imageHash, himage, h⟩ := Option.bind_eq_some_iff.1 h
  obtain ⟨payloadHash, hhash, h⟩ := Option.bind_eq_some_iff.1 h
  cases h
  cases hatt
  refine ⟨E.toUtf8Bytes_eq _ _ hresult, htimestamp, ?_, hhash⟩
  obtain ⟨s, hs, hbytes⟩ := Option.bind_eq_some_iff.1 himage
  refine ⟨s, ?_, E.toUtf8Bytes_eq _ _ hbytes⟩
  cases hv : call.imageHash with
  | str t =>
    rw [hv] at hs
    exact congrArg JsValue.str (Option.some.inj hs)
  | _ =>
    rw [hv] at hs
    cases hs

/-- The text of a timestamp that `ethers` takes, against the text of the number it becomes. -/
theorem timestamp_text {v : JsValue} {n : Uint256} {ts : JsString} (h : abi.uint256 v = some n)
    (hts : v.toText = some ts) :
    (utf8 ts = utf8 (decimal n.toNat) ↔ plainTimestamp v = true) ∧ 124 ∉ ts := by
  cases v with
  | str s =>
    rw [JsValue.toText_str] at hts
    cases hts
    have hread := abi.uint256_str _ n h
    exact ⟨bigInt_decimal_iff hread, bar_notMem_of_bigInt hread⟩
  | num x =>
    obtain ⟨d, rfl, hd, hsafe⟩ := abi.uint256_num x n h
    rw [JsValue.toText_num, toString_safe hd hsafe] at hts
    cases hts
    exact ⟨iff_of_true rfl rfl, bar_notMem_of_bigInt (bigInt_decimal n.toNat)⟩
  | _ =>
    rw [abi.uint256_other _ (fun _ h => by cases h) (fun _ h => by cases h)] at h
    cases h

/-- A text without a `|` is one piece. -/
theorem pieces_length {s : JsString} (h : 124 ∉ s) : (pieces s).length = 1 := by
  have hchar : '|' ∉ toWellFormed s := fun hmem =>
    h (mem_of_mem_toWellFormed (u := 124) (by decide) hmem)
  rw [pieces, List.splitOn_eq_singleton hchar, List.length_singleton]

theorem pieces_payload (r t i : JsString) :
    pieces (r ++ 124 :: (t ++ 124 :: i)) = pieces r ++ (pieces t ++ pieces i) := by
  rw [pieces_bar, pieces_bar]

/-- The payloads of two timestamps meet only where the timestamps have the same bytes: a payload with
the legacy prefix has one piece more. -/
theorem payloadsOf_meet_iff {r t t' i p : JsString} (ht : 124 ∉ t) (ht' : 124 ∉ t')
    (hp : p ∈ payloadsOf r t i) : (∃ q ∈ payloadsOf r t' i, utf8 p = utf8 q) ↔ utf8 t = utf8 t' := by
  have hlen := pieces_length ht
  have hlen' := pieces_length ht'
  have hrow : pieces r ++ (pieces t ++ pieces i) = pieces r ++ (pieces t' ++ pieces i) ↔
      pieces t = pieces t' := by
    rw [List.append_cancel_left_eq, List.append_cancel_right_eq]
  have hlonger : ∀ a b : List (List Char), a.length = b.length → ∀ w, a ≠ w :: b := by
    rintro a b h w rfl
    simp at h
  have hsame : (pieces r ++ (pieces t ++ pieces i)).length =
      (pieces r ++ (pieces t' ++ pieces i)).length := by
    simp [hlen, hlen']
  simp only [utf8_eq_iff]
  simp only [payloadsOf, List.mem_cons, List.not_mem_nil, or_false, exists_eq_or_imp,
    exists_eq_left] at hp ⊢
  rcases hp with rfl | rfl
  · rw [pieces_legacy, pieces_payload, pieces_payload, hrow, or_iff_left (hlonger _ _ hsame _)]
  · rw [pieces_legacy, pieces_legacy, pieces_payload, pieces_payload, List.cons.injEq, hrow,
      or_iff_right (hlonger _ _ hsame.symm _).symm, and_iff_right rfl]

theorem Verified.payloads (h : Verified E body call) :
    ∃ ts ih, body.timestamp.toText = some ts ∧ body.imageHash.toText = some ih ∧
      payloads body = payloadsOf call.result ts ih ∧
      ∃ p ∈ payloadsOf call.result ts ih, call.payloadHash = E.keccak256 (utf8 p) := by
  obtain ⟨ts, ih, hts, hih, p, hp, -, hhash⟩ := h.proof
  rw [h.timestamp] at hts
  rw [h.imageHash] at hih
  refine ⟨ts, ih, hts, hih, ?_, p, hp, hhash⟩
  have hcanonical : canonicalPayload body =
      some (sealedSkyTextFromBody body ++ 124 :: (ts ++ 124 :: ih)) := by
    rw [canonicalPayload, hts, hih]
    rfl
  rw [Backend.payloads, hcanonical, ← h.result]
  rfl

theorem Encoded.auditTexts (h : Encoded abi call att) {ih : JsString}
    (hih : call.imageHash.toText = some ih) : auditTexts att =
      (payloadsOf call.result (decimal att.timestamp.toNat) ih).map utf8 := by
  obtain ⟨s, hs, himage⟩ := h.imageHash
  rw [hs, JsValue.toText_str] at hih
  cases hih
  rw [Backend.auditTexts, payloadsOf, legacyPayload, h.result, himage, List.map_cons, List.map_cons,
    List.map_nil, utf8_bar LEGACY_CONTEXT_PREFIX, utf8_bar, utf8_bar]

/-- The payload that was hashed is a text of the stored fields exactly for a plain timestamp. -/
theorem hashed_text_iff (hverified : Verified E body call) (henc : Encoded abi call att) :
    ∃ p ∈ payloads body, att.payloadHash = abi.keccak (utf8 p) ∧
      (utf8 p ∈ auditTexts att ↔ plainTimestamp body.timestamp = true) := by
  obtain ⟨ts, ih, hts, hih, hpayloads, p, hp, hhash⟩ := hverified.payloads
  rw [← hverified.imageHash] at hih
  have htimestamp := henc.timestamp
  rw [hverified.timestamp] at htimestamp
  obtain ⟨hplain, hbar⟩ := timestamp_text htimestamp hts
  have hdecimal : 124 ∉ decimal att.timestamp.toNat :=
    bar_notMem_of_bigInt (bigInt_decimal att.timestamp.toNat)
  refine ⟨p, hpayloads ▸ hp, ?_, ?_⟩
  · have hbytes := henc.payloadHash
    rw [hhash, abi.bytes32_keccak] at hbytes
    exact (Option.some.inj hbytes).symm
  · rw [← hplain, ← payloadsOf_meet_iff hbar hdecimal hp, henc.auditTexts hih, List.mem_map]
    exact exists_congr fun q => and_congr_right fun _ => eq_comm

theorem auditable_of_plain (hverified : Verified E body call) (henc : Encoded abi call att)
    (hplain : plainTimestamp body.timestamp = true) : abi.Auditable att := by
  obtain ⟨p, -, hhash, htext⟩ := hashed_text_iff hverified henc
  exact ⟨utf8 p, htext.2 hplain, hhash⟩

/-- **The hash of an attestation can be computed again from its fields** exactly when the timestamp was
sent as a number, or as decimal digits without a leading zero. -/
theorem auditable_iff (hverified : Verified E body call) (henc : Encoded abi call att)
    (hkeccak : abi.NoCollision body att) :
    abi.Auditable att ↔ plainTimestamp body.timestamp = true := by
  refine ⟨?_, auditable_of_plain hverified henc⟩
  rintro ⟨t, ht, heq⟩
  obtain ⟨p, hp, hhash, htext⟩ := hashed_text_iff hverified henc
  have hsame : utf8 p = t := hkeccak p hp t ht (hhash ▸ heq)
  exact htext.1 (hsame ▸ ht)

end

/-! ## Backend and contract together -/

/-- The backend, the contract, the transactions that requests have sent, and what those that were
mined have stored. -/
structure Deployment where
  server : Server
  oracle : TrustedEdgeOracle
  sent : List (ℕ × Transaction)
  mined : List (ℕ × Attestation)

inductive Event where
  | handle (a : Action)
  | mine (id : ℕ)
  /-- a transaction of another sender, or of another program with the same key -/
  | transact (txn : Transaction)

namespace Deployment

def init (deployer : Address) : Deployment := ⟨Server.init, deploy deployer, [], []⟩

variable {E : Ethers} (abi : Abi E) (relayer : Address) (d : Deployment)

/-- The transactions that go out with a step of the backend, `none` where the chain does not let the
promise resolve so. -/
def sends : Action → Option (List (ℕ × Transaction))
  | .submitInference id _ (.ok _) _ =>
    (d.server.waitingOf id).bind fun w =>
      (abi.encode relayer w.pending.call).map fun txn => [(id, txn)]
  | .wait id _ (.ok _) _ _ => if d.mined.any fun m => m.1 == id then some [] else none
  | _ => some []

def handle (a : Action) : Option Deployment :=
  (d.server.step E a).bind fun server =>
    (d.sends abi relayer a).map fun txns => { d with server, sent := d.sent ++ txns }

/-- A transaction is mined once. One that reverts stores nothing, and its `tx.wait()` rejects. -/
def mine (id : ℕ) : Option Deployment :=
  if d.mined.any fun m => m.1 == id then none
  else
    (d.sent.find? fun t => t.1 == id).bind fun t =>
      match d.oracle.call t.2 with
      | none => some d
      | some oracle => t.2.stores.map fun att => { d with oracle, mined := d.mined ++ [(id, att)] }

def step : Event → Option Deployment
  | .handle a => d.handle abi relayer a
  | .mine id => d.mine id
  | .transact txn => some { d with oracle := d.oracle.execute txn }

end Deployment

def deployment {E : Ethers} (abi : Abi E) (relayer deployer : Address) : Lts Deployment Event :=
  ⟨Deployment.init deployer, fun d e => d.step abi relayer e⟩

/-- Both parts run as they run on their own, and everything mined was encoded from a call. -/
structure Deployed {E : Ethers} (abi : Abi E) (relayer deployer : Address) (d : Deployment) :
    Prop where
  server : ∃ as, (Backend.server E).run Server.init as = some d.server
  oracle : ∃ txns, (Oracle.oracle deployer).run (deploy deployer) txns = some d.oracle
  sent : ∀ id txn, (id, txn) ∈ d.sent →
    ∃ call, (id, call) ∈ d.server.calls ∧ abi.encode relayer call = some txn
  mined : ∀ id att, (id, att) ∈ d.mined → att ∈ d.oracle.attestations ∧
    ∃ txn, (id, txn) ∈ d.sent ∧ txn.stores = some att
  confirmed : ∀ id tx, (id, tx) ∈ d.server.confirmed → ∃ att, (id, att) ∈ d.mined

section
variable {E : Ethers} {abi : Abi E} {relayer deployer : Address} {d t : Deployment}

theorem mem_fst_of_any {α : Type} {l : List (ℕ × α)} {id : ℕ}
    (h : (l.any fun m => m.1 == id) = true) : ∃ x, (id, x) ∈ l := by
  obtain ⟨⟨i, x⟩, hmem, heq⟩ := List.any_eq_true.1 h
  exact ⟨x, beq_iff_eq.1 heq ▸ hmem⟩

/-- A call is never taken back. -/
theorem Stepped.calls_subset {s s' : Server} {a : Action} (h : Stepped E s a s') {id : ℕ} {call : Call}
    (hmem : (id, call) ∈ s.calls) : (id, call) ∈ s'.calls := by
  cases h with
  | called => exact List.mem_append_left _ hmem
  | _ => exact hmem

theorem answer_confirmed (s : Server) (id : ℕ) (record : HistoryRecord) (response : Response)
    (disk : Outcome Unit) : (s.answer id record response disk).confirmed = s.confirmed := by
  cases disk <;> rfl

theorem enter_confirmed (s : Server) (id : ℕ) (body : Option Body) (reached : Reached)
    (disk : Outcome Unit) : (s.enter id body reached disk).confirmed = s.confirmed := by
  cases reached with
  | answered record response => exact answer_confirmed _ id record response disk
  | _ => rfl

theorem chainConfirmed_confirmed (s : Server) (id : ℕ) (p : Pending) (now tx : JsString)
    (disk diskInCatch : Outcome Unit) :
    (s.chainConfirmed id p now tx disk diskInCatch).confirmed = s.confirmed ++ [(id, tx)] := by
  cases disk with
  | ok u => rfl
  | error msg => exact answer_confirmed _ id _ _ diskInCatch

/-- A transaction is confirmed where its `tx.wait()` resolves. -/
theorem confirmed_of_step {s s' : Server} {a : Action} (h : s.step E a = some s') {i : ℕ}
    {tx : JsString} (hmem : (i, tx) ∈ s'.confirmed) :
    (i, tx) ∈ s.confirmed ∨ ∃ now u disk disk', a = .wait i now (.ok u) disk disk' := by
  cases ran_of_step h with
  | submit _ => exact Or.inl (by rwa [enter_confirmed] at hmem)
  | signInference _ => exact Or.inl (by rwa [enter_confirmed] at hmem)
  | sent _ _ => exact Or.inl hmem
  | notSent _ => exact Or.inl (by rwa [Server.chainFailed, answer_confirmed] at hmem)
  | notConfirmed _ => exact Or.inl (by rwa [Server.chainFailed, answer_confirmed] at hmem)
  | @confirmed id now disk diskInCatch p tx' hid =>
    rw [chainConfirmed_confirmed] at hmem
    rcases mem_log.1 hmem with hmem | ⟨rfl, -⟩
    · exact Or.inl hmem
    · exact Or.inr ⟨now, (), disk, diskInCatch, rfl⟩

/-- What goes out with a step was encoded from a call that was waiting. -/
theorem mem_sends {a : Action} {txns : List (ℕ × Transaction)} (h : d.sends abi relayer a = some txns)
    {id : ℕ} {txn : Transaction} (hmem : (id, txn) ∈ txns) :
    ∃ w, (id, w) ∈ d.server.waiting ∧ abi.encode relayer w.pending.call = some txn := by
  unfold Deployment.sends at h
  split at h
  · obtain ⟨w, hw, h⟩ := Option.bind_eq_some_iff.1 h
    obtain ⟨txn', htxn, rfl⟩ := Option.map_eq_some_iff.1 h
    obtain ⟨rfl, rfl⟩ := Prod.mk.inj (List.mem_singleton.1 hmem)
    exact ⟨w, mem_of_waitingOf hw, htxn⟩
  · obtain ⟨-, h⟩ := Option.ite_none_right_eq_some.1 h
    cases h
    cases hmem
  · cases h
    cases hmem

theorem handle_deployed {a : Action} (hd : Deployed abi relayer deployer d)
    (h : d.handle abi relayer a = some t) : Deployed abi relayer deployer t := by
  obtain ⟨server, hserver, h⟩ := Option.bind_eq_some_iff.1 h
  obtain ⟨txns, hsends, rfl⟩ := Option.map_eq_some_iff.1 h
  obtain ⟨as, has⟩ := hd.server
  have hinv : Inv E d.server := run_inv has
  have hstep : Stepped E d.server a server := step_cases hserver
  refine ⟨⟨as ++ [a], Lts.run_concat _ has hserver⟩, hd.oracle, fun id txn hmem => ?_,
    fun id att hmem => ?_, fun id tx hmem => ?_⟩
  · rcases List.mem_append.1 hmem with hmem | hmem
    · obtain ⟨call, hcall, htxn⟩ := hd.sent id txn hmem
      exact ⟨call, hstep.calls_subset hcall, htxn⟩
    · obtain ⟨w, hw, htxn⟩ := mem_sends hsends hmem
      exact ⟨w.pending.call, hstep.calls_subset (hinv.waiting id w hw), htxn⟩
  · obtain ⟨hatt, txn, htxn, hstores⟩ := hd.mined id att hmem
    exact ⟨hatt, txn, List.mem_append_left _ htxn, hstores⟩
  · obtain hold | ⟨now, u, disk, disk', rfl⟩ := confirmed_of_step hserver hmem
    · exact hd.confirmed id tx hold
    · obtain ⟨hmined, -⟩ := Option.ite_none_right_eq_some.1 hsends
      exact mem_fst_of_any hmined

/-- The contract may take one more transaction. -/
theorem oracle_execute (hd : Deployed abi relayer deployer d) (txn : Transaction) :
    (∃ txns, (Oracle.oracle deployer).run (deploy deployer) txns = some (d.oracle.execute txn)) ∧
      d.oracle.attestations <+: (d.oracle.execute txn).attestations := by
  obtain ⟨txns, htxns⟩ := hd.oracle
  exact ⟨⟨txns ++ [txn], Lts.run_concat _ htxns rfl⟩,
    (execute_grows txn (Oracle.run_inv htxns).length).attestations⟩

theorem step_deployed {e : Event} (hd : Deployed abi relayer deployer d)
    (h : d.step abi relayer e = some t) : Deployed abi relayer deployer t := by
  cases e with
  | handle a => exact handle_deployed hd h
  | transact txn =>
    cases h
    obtain ⟨hrun, hgrows⟩ := oracle_execute hd txn
    exact ⟨hd.server, hrun, hd.sent, fun id att hmem =>
      ⟨hgrows.subset (hd.mined id att hmem).1, (hd.mined id att hmem).2⟩, hd.confirmed⟩
  | mine id =>
    obtain ⟨-, h⟩ := Option.ite_none_left_eq_some.1 h
    obtain ⟨⟨i, txn⟩, hfind, h⟩ := Option.bind_eq_some_iff.1 h
    have hfst := List.find?_some hfind
    obtain rfl : i = id := beq_iff_eq.1 hfst
    cases hcall : d.oracle.call txn with
    | none =>
      simp only [hcall] at h
      cases h
      exact hd
    | some oracle =>
      simp only [hcall] at h
      obtain ⟨att, hstores, rfl⟩ := Option.map_eq_some_iff.1 h
      obtain ⟨hrun, hgrows⟩ := oracle_execute hd txn
      have hexecute : d.oracle.execute txn = oracle := by
        rw [TrustedEdgeOracle.execute, hcall, Option.getD_some]
      rw [hexecute] at hrun hgrows
      obtain ⟨txns, htxns⟩ := hd.oracle
      have hstored : att ∈ oracle.attestations := by
        obtain ⟨relayer', rfl, -⟩ | ⟨att', hstores', -, -, rfl⟩ :=
          call_cases (Oracle.run_inv htxns).length hcall
        · cases hstores
        · rw [hstores, Option.some.injEq] at hstores'
          exact hstores' ▸ List.mem_append_right _ (List.mem_singleton_self _)
      refine ⟨hd.server, hrun, hd.sent, fun j att' hmem => ?_, fun j tx hmem => ?_⟩
      · rcases mem_log.1 hmem with hmem | ⟨rfl, rfl⟩
        · exact ⟨hgrows.subset (hd.mined j att' hmem).1, (hd.mined j att' hmem).2⟩
        · exact ⟨hstored, txn, List.mem_of_find?_eq_some hfind, hstores⟩
      · obtain ⟨att', hmined⟩ := hd.confirmed j tx hmem
        exact ⟨att', List.mem_append_left _ hmined⟩

theorem deployed_init : Deployed abi relayer deployer (Deployment.init deployer) := by
  refine ⟨⟨[], rfl⟩, ⟨[], rfl⟩, ?_, ?_, ?_⟩
  all_goals
    intro id x h
    cases h

theorem run_deployed {es : List Event}
    (hrun : (deployment abi relayer deployer).run (Deployment.init deployer) es = some d) :
    Deployed abi relayer deployer d := by
  have hstep : ∀ d e t, Deployed abi relayer deployer d →
      (deployment abi relayer deployer).step d e = some t → Deployed abi relayer deployer t :=
    fun _ _ _ hd h => step_deployed hd h
  exact Lts.run_inv hstep deployed_init hrun

/-- **For which requests the hash can be computed again.** A confirmed request has an attestation in
the contract, whose hash is that of a text of its own fields exactly when the timestamp of the request
was a number, or decimal digits without a leading zero. -/
theorem run_auditable_iff {es : List Event}
    (hrun : (deployment abi relayer deployer).run (Deployment.init deployer) es = some d) {id : ℕ}
    {tx : JsString} (hconfirmed : (id, tx) ∈ d.server.confirmed) :
    (∃ att, (id, att) ∈ d.mined) ∧ ∀ att, (id, att) ∈ d.mined →
      att ∈ d.oracle.attestations ∧ ∃ body, (id, some body) ∈ d.server.received ∧
        (plainTimestamp body.timestamp = true → abi.Auditable att) ∧
        (abi.NoCollision body att →
          (abi.Auditable att ↔ plainTimestamp body.timestamp = true)) := by
  have hd := run_deployed hrun
  obtain ⟨as, has⟩ := hd.server
  have hinv : Inv E d.server := run_inv has
  refine ⟨hd.confirmed id tx hconfirmed, fun att hmined => ?_⟩
  obtain ⟨hatt, txn, hsent, hstores⟩ := hd.mined id att hmined
  obtain ⟨call, hcall, htxn⟩ := hd.sent id txn hsent
  obtain ⟨body, hbody, hverified⟩ := hinv.calls id call hcall
  have henc := encoded_of_encode htxn hstores
  exact ⟨hatt, body, hbody, auditable_of_plain hverified henc, auditable_iff hverified henc⟩

end

/-! ## One timestamp in two spellings -/

/-- `ethers.keccak256` on the texts below. -/
def digests : List (JsString × JsString) :=
  [(js "a|1|b", js "0xb456237c5fa3c729ee1ae6eec3dab925d5e48e8e2a6c17e0cd980415ba3a2c3a"),
    (js "pothole_detected|a|1|b",
      js "0x12e482f97984c9ee273c84e5d4bd2e240499262042049c7f3a5f1190f46f5cc3"),
    (js "a|0x10|b", js "0x56a170006460f1938072861a71791f9c490c761a1fdeef8be7d6bfa89310de44"),
    (js "a|16|b", js "0xe08fbc1879ad3ccdf64fa4629719d86361ddf785b17a865f75760c723f94bc84"),
    (js "pothole_detected|a|16|b",
      js "0x28dca3af3208a2927e6e2d8cbf572bebaa6da24d306cfcd6d23357baebe12eb7")]

def digestText (bs : List UInt8) : JsString :=
  match digests.find? fun d => utf8 d.1 == bs with
  | some d => d.2
  | none => js "0x0000000000000000000000000000000000000000000000000000000000000000"

def bytes32Of : JsString → Option Bytes32
  | 48 :: 120 :: r =>
    if r.length = 64 then (radixInteger 16 r).map fun n => BitVec.ofNat 256 n else none
  | _ => none

theorem bytes32Of_digestText (bs : List UInt8) : (bytes32Of (digestText bs)).isSome := by
  have hall : ∀ d ∈ digests, (bytes32Of d.2).isSome := by decide +kernel
  unfold digestText
  split
  · rename_i d hfind
    exact hall d (List.mem_of_find?_eq_some hfind)
  · decide +kernel

def uint256Of : JsValue → Option Uint256
  | .str s =>
    match bigInt s with
    | some (.ofNat n) => if n < 2 ^ 256 then some (BitVec.ofNat 256 n) else none
    | _ => none
  | .num (.fin d) =>
    if d.val = (d.val.num.toNat : ℚ) ∧ d.val.num.toNat < 2 ^ 53 then
      some (BitVec.ofNat 256 d.val.num.toNat)
    else none
  | _ => none

def tabled : Ethers where
  toUtf8Bytes s := some (utf8 s)
  keccak256 := digestText
  toUtf8Bytes_eq := ethersOf.toUtf8Bytes_eq

def tabledAbi : Abi tabled where
  keccak bs := (bytes32Of (digestText bs)).get (bytes32Of_digestText bs)
  uint256 := uint256Of
  bytes32 := bytes32Of
  uint256_str s n h := by
    unfold uint256Of at h
    simp only at h
    split at h
    · rename_i m hread
      obtain ⟨hm, h⟩ := Option.ite_none_right_eq_some.1 h
      cases h
      rw [hread, BitVec.toNat_ofNat, Nat.mod_eq_of_lt hm]
      rfl
    · cases h
  uint256_num x n h := by
    cases x with
    | fin d =>
      obtain ⟨⟨hwhole, hsafe⟩, h⟩ := Option.ite_none_right_eq_some.1 h
      have hlt : d.val.num.toNat < 2 ^ 256 := by omega
      cases h
      rw [BitVec.toNat_ofNat, Nat.mod_eq_of_lt hlt]
      exact ⟨d, rfl, hwhole, hsafe⟩
    | _ => cases h
  uint256_other v hstr hnum := by
    cases v with
    | str s => exact absurd rfl (hstr s)
    | num x => exact absurd rfl (hnum x)
    | _ => rfl
  bytes32_keccak bs := (Option.some_get _).symm

/-- A body with the proof that the device makes for it. -/
def stamped (timestamp : String) : Body :=
  { form "a" timestamp "b" with
    proof := .str (hmacHex DEVICE_SECRET (js ("a|" ++ timestamp ++ "|b"))) }

def stampedPending (timestamp : String) : Pending where
  receivedAt := js "2026-05-09T12:00:00.000Z"
  sealedSkyText := js "a"
  timestamp := .str (js timestamp)
  imageHash := .str (js "b")
  proofNorm := hmacHex DEVICE_SECRET (js ("a|" ++ timestamp ++ "|b"))
  matchedPayload := js ("a|" ++ timestamp ++ "|b")
  payloadHash := digestText (utf8 (js ("a|" ++ timestamp ++ "|b")))

theorem handleSubmit_stamped {timestamp : String}
    (h : canonicalPayload (stamped timestamp) = some (js ("a|" ++ timestamp ++ "|b"))) :
    handleSubmit tabled (js "2026-05-09T12:00:00.000Z") (some (stamped timestamp)) =
      .calls (stampedPending timestamp) := by
  have hform : Accepted (form "a" timestamp "b") := accepted_form (by decide)
  exact handleSubmit_proved ⟨hform.timestamp, hform.imageHash⟩ h rfl rfl

/-- The request, its transaction, and its receipt. -/
def attesting (timestamp : String) : List Event :=
  [.handle (.submit 0 (js "2026-05-09T12:00:00.000Z") (some (stamped timestamp)) (.ok ())),
    .handle (.submitInference 0 (js "2026-05-09T12:00:01.000Z") (.ok (js "0x01")) (.ok ())),
    .mine 0,
    .handle (.wait 0 (js "2026-05-09T12:00:02.000Z") (.ok ()) (.ok ()) (.ok ()))]

theorem run_attesting {timestamp : String} {att : Attestation}
    (h : canonicalPayload (stamped timestamp) = some (js ("a|" ++ timestamp ++ "|b")))
    (henc : tabledAbi.encode 1 (stampedPending timestamp).call =
      some (.submitInference 1 att.deviceId att.result att.timestamp att.imageHash att.payloadHash)) :
    ∃ d, (deployment tabledAbi 1 1).run (Deployment.init 1) (attesting timestamp) = some d ∧
      d.server.received = [(0, some (stamped timestamp))] ∧
      d.server.confirmed = [(0, js "0x01")] ∧
      d.mined = [(0, { att with relayer := 1 })] ∧
      d.server.history = [(0, acceptedRecord (stampedPending timestamp) (js "0x01"))] := by
  have hsubmit : (deployment tabledAbi 1 1).step (Deployment.init 1)
      (.handle (.submit 0 (js "2026-05-09T12:00:00.000Z") (some (stamped timestamp)) (.ok ()))) =
        some ⟨⟨[(0, some (stamped timestamp))], [], [(0, (stampedPending timestamp).call)], [], [],
          [(0, .submitInference (stampedPending timestamp))]⟩, deploy 1, [], []⟩ := by
    change some (Deployment.mk (Server.init.enter 0 (some (stamped timestamp))
      (handleSubmit tabled _ _) _) _ _ _) = _
    rw [handleSubmit_stamped h]
    rfl
  have hsent : (deployment tabledAbi 1 1).step
      ⟨⟨[(0, some (stamped timestamp))], [], [(0, (stampedPending timestamp).call)], [], [],
        [(0, .submitInference (stampedPending timestamp))]⟩, deploy 1, [], []⟩
      (.handle (.submitInference 0 (js "2026-05-09T12:00:01.000Z") (.ok (js "0x01")) (.ok ()))) =
        some ⟨⟨[(0, some (stamped timestamp))], [], [(0, (stampedPending timestamp).call)], [], [],
          [(0, .wait (stampedPending timestamp) (js "0x01"))]⟩, deploy 1,
          [(0, .submitInference 1 att.deviceId att.result att.timestamp att.imageHash
            att.payloadHash)], []⟩ := by
    change ((tabledAbi.encode 1 (stampedPending timestamp).call).map _).map _ = _
    rw [henc]
    rfl
  have hrest : ((deployment tabledAbi 1 1).run
      ⟨⟨[(0, some (stamped timestamp))], [], [(0, (stampedPending timestamp).call)], [], [],
          [(0, .wait (stampedPending timestamp) (js "0x01"))]⟩, deploy 1,
        [(0, .submitInference 1 att.deviceId att.result att.timestamp att.imageHash
          att.payloadHash)], []⟩
      [.mine 0, .handle (.wait 0 (js "2026-05-09T12:00:02.000Z") (.ok ()) (.ok ()) (.ok ()))]).map
        (fun d => (d.server.received, d.server.confirmed, d.mined, d.server.history)) =
      some ([(0, some (stamped timestamp))], [(0, js "0x01")],
        [(0, { att with relayer := 1 })],
        [(0, acceptedRecord (stampedPending timestamp) (js "0x01"))]) := rfl
  obtain ⟨d, hd, heq⟩ := Option.map_eq_some_iff.1 hrest
  obtain ⟨hreceived, heq⟩ := Prod.mk.inj heq
  obtain ⟨hconfirmed, heq⟩ := Prod.mk.inj heq
  obtain ⟨hmined, hhistory⟩ := Prod.mk.inj heq
  exact ⟨d, (Lts.run_cons _).2 ⟨_, hsubmit, (Lts.run_cons _).2 ⟨_, hsent, hd⟩⟩, hreceived,
    hconfirmed, hmined, hhistory⟩

/-- What is stored for a timestamp. -/
def attested (timestamp : Uint256) (payloadHash : Bytes32) : Attestation where
  deviceId := utf8 (js "armory-mk2-alpha")
  result := utf8 (js "a")
  timestamp
  imageHash := utf8 (js "b")
  payloadHash
  relayer := 1

def attestedOne : Attestation :=
  attested 1 0xb456237c5fa3c729ee1ae6eec3dab925d5e48e8e2a6c17e0cd980415ba3a2c3a#256

def attestedHex : Attestation :=
  attested 16 0x56a170006460f1938072861a71791f9c490c761a1fdeef8be7d6bfa89310de44#256

theorem run_auditable_decimal : ∃ d,
    (deployment tabledAbi 1 1).run (Deployment.init 1) (attesting "1") = some d ∧
      (0, js "0x01") ∈ d.server.confirmed ∧ (0, attestedOne) ∈ d.mined ∧
      attestedOne ∈ d.oracle.attestations ∧ tabledAbi.Auditable attestedOne := by
  have henc : tabledAbi.encode 1 (stampedPending "1").call = some (.submitInference 1
      attestedOne.deviceId attestedOne.result attestedOne.timestamp attestedOne.imageHash
      attestedOne.payloadHash) := by decide +kernel
  have hkeccak : ∀ p ∈ payloads (stamped "1"), ∀ t ∈ auditTexts attestedOne,
      tabledAbi.keccak (utf8 p) = tabledAbi.keccak t → utf8 p = t := by decide +kernel
  obtain ⟨d, hrun, hreceived, hconfirmed, hmined, -⟩ := run_attesting (by decide) henc
  have hconf : (0, js "0x01") ∈ d.server.confirmed := hconfirmed ▸ List.mem_singleton_self _
  have hmem : (0, attestedOne) ∈ d.mined := hmined ▸ List.mem_singleton_self _
  obtain ⟨hatt, body, hbody, -, hiff⟩ := (run_auditable_iff hrun hconf).2 attestedOne hmem
  rw [hreceived, List.mem_singleton] at hbody
  cases hbody
  exact ⟨d, hrun, hconf, hmem, hatt, (hiff hkeccak).2 (by decide)⟩

/-- The timestamp `0x10` is hashed as it was sent and stored as 16. -/
theorem attested_hexadecimal : ∃ d,
    (deployment tabledAbi 1 1).run (Deployment.init 1) (attesting "0x10") = some d ∧
      (0, js "0x01") ∈ d.server.confirmed ∧ (0, attestedHex) ∈ d.mined ∧
      attestedHex.timestamp = 16 ∧ ¬ tabledAbi.Auditable attestedHex := by
  have henc : tabledAbi.encode 1 (stampedPending "0x10").call = some (.submitInference 1
      attestedHex.deviceId attestedHex.result attestedHex.timestamp attestedHex.imageHash
      attestedHex.payloadHash) := by decide +kernel
  have hno : ∀ t ∈ auditTexts attestedHex, attestedHex.payloadHash ≠ tabledAbi.keccak t := by
    decide +kernel
  obtain ⟨d, hrun, -, hconfirmed, hmined, -⟩ := run_attesting (by decide) henc
  refine ⟨d, hrun, hconfirmed ▸ List.mem_singleton_self _, hmined ▸ List.mem_singleton_self _, rfl, ?_⟩
  rintro ⟨t, ht, heq⟩
  exact hno t ht heq

end SealedSky.Backend
