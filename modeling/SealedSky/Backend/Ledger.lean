import Mathlib.Data.List.NodupEquivFin
import SealedSky.Backend.Auditable
import SealedSky.Backend.Endpoints

/-!
# What the history and the chain say of each other

The backend on its history file, with NameStone and with the contract, among the transactions of others.
The file operations go through throughout (`Recorder.step` sees to that), and ethers reads a string that
is given for a uint256 as `BigInt` does (`Abi.uint256_str`). A row of the history that says `accepted`
has an attestation of its own, and where nobody else uses the key of the backend, what the contract has
from that key is in the history, or its request is not answered yet. What is read under a published name
is a part of that history.

* `Traced` — where a submission stands, from its call to its record.
* `run_attested`, `run_accounted` — from the history to the chain, and back.
* `run_published_attested` — from a published name to the chain.
-/
namespace SealedSky.Backend

open Js Oracle

/-! ## What a submission carries -/

/-- The proof is the MAC of a payload made of the fields, and the hash is that of the payload. -/
structure Pending.Proven (E : Ethers) (p : Pending) : Prop where
  payload : ∃ timestamp imageHash, p.timestamp.toText = some timestamp ∧
    p.imageHash.toText = some imageHash ∧
    p.matchedPayload ∈ payloadsOf p.sealedSkyText timestamp imageHash
  proof : p.proofNorm = hmacHex DEVICE_SECRET p.matchedPayload
  payloadHash : p.payloadHash = E.keccak256 (utf8 p.matchedPayload)

/-- A record of a submission that has reached the chain section, whatever came of it. -/
structure RecordOf (p : Pending) (record : HistoryRecord) : Prop where
  sealedSkyText : record.sealedSkyText = p.sealedSkyText
  timestamp : record.timestamp = p.timestamp
  imageHash : record.imageHash = p.imageHash
  proof : record.proof = .str p.proofNorm
  payload : record.payload = some p.matchedPayload

/-- Where the submissions of a server stand, as long as its records are written. -/
structure Traced (E : Ethers) (s : Server) : Prop where
  distinct : (s.calls.map Prod.fst).Nodup
  received : ∀ id call, (id, call) ∈ s.calls → id ∈ s.received.map Prod.fst
  waiting : ∀ id w, (id, w) ∈ s.waiting → w.pending.Proven E ∧ (id, w.pending.call) ∈ s.calls
  ended : ∀ id call, (id, call) ∈ s.calls → (∃ w, (id, w) ∈ s.waiting) ∨
    ∃ p record, (id, record) ∈ s.history ∧ RecordOf p record ∧ p.Proven E ∧ p.call = call
  accepted : ∀ id record, (id, record) ∈ s.history → record.status = .accepted →
    (∃ tx, (id, tx) ∈ s.confirmed) ∧
      ∃ p, RecordOf p record ∧ p.Proven E ∧ (id, p.call) ∈ s.calls

section
variable {E : Ethers} {s t : Server}

theorem recordOf_accepted (p : Pending) (tx : JsString) : RecordOf p (acceptedRecord p tx) :=
  ⟨rfl, rfl, rfl, rfl, rfl⟩

theorem recordOf_failed (p : Pending) (now msg : JsString) : RecordOf p (failedRecord p now msg) :=
  ⟨rfl, rfl, rfl, rfl, rfl⟩

theorem handleSubmit_proven {receivedAt : JsString} {body : Option Body} {p : Pending}
    (h : handleSubmit E receivedAt body = .calls p) : p.Proven E := by
  cases body with
  | none => cases h
  | some body =>
    unfold handleSubmit at h
    simp only at h
    split at h
    · cases h
    · cases h
    · cases h
    · rename_i matched hsubmit
      split at h
      · rename_i proofNorm bytes hproof hbytes
        cases h
        obtain ⟨q, hq, hmem, hmac⟩ := submit_eq_matched hsubmit
        obtain ⟨timestamp, hts, hq⟩ := Option.bind_eq_some_iff.1 hq
        obtain ⟨imageHash, hhash, rfl⟩ := Option.map_eq_some_iff.1 hq
        refine ⟨⟨timestamp, imageHash, hts, hhash, hmem⟩, ?_, ?_⟩
        · exact Option.some.inj (hproof.symm.trans hmac)
        · exact congrArg E.keccak256 (E.toUtf8Bytes_eq _ _ hbytes)
      · cases h

theorem call_unique (h : Traced E s) {id : ℕ} {call call' : Call} (hcall : (id, call) ∈ s.calls)
    (hcall' : (id, call') ∈ s.calls) : call = call' :=
  congrArg Prod.snd (List.inj_on_of_nodup_map h.distinct hcall hcall' rfl)

/-- A request is answered at once. -/
theorem Traced.answer (h : Traced E s) {id : ℕ} {body : Option Body} (record : Option HistoryRecord)
    (hcalls : t.calls = s.calls) (hreceived : t.received = s.received ++ [(id, body)])
    (hwaiting : t.waiting = s.waiting) (hhistory : t.history = s.history ++ entry id record)
    (hconfirmed : t.confirmed = s.confirmed)
    (hrecord : ∀ r, record = some r → r.status ≠ .accepted) : Traced E t := by
  refine ⟨hcalls ▸ h.distinct, fun i call hmem => ?_, fun i w hmem => ?_, fun i call hmem => ?_,
    fun i r hmem hstatus => ?_⟩
  · rw [hcalls] at hmem
    rw [hreceived, List.map_append]
    exact List.mem_append_left _ (h.received i call hmem)
  · rw [hwaiting] at hmem
    rw [hcalls]
    exact h.waiting i w hmem
  · rw [hcalls] at hmem
    rw [hwaiting, hhistory]
    exact (h.ended i call hmem).imp_right fun ⟨p, r, hr, hrest⟩ =>
      ⟨p, r, List.mem_append_left _ hr, hrest⟩
  · rw [hhistory] at hmem
    rw [hcalls, hconfirmed]
    rcases mem_log_entry.1 hmem with hold | ⟨-, hr⟩
    · exact h.accepted i r hold hstatus
    · exact absurd hstatus (hrecord r hr)

/-- A request has called the contract. -/
theorem Traced.call (h : Traced E s) {id : ℕ} {body : Option Body} {p : Pending}
    (hid : id ∉ s.received.map Prod.fst) (hp : p.Proven E)
    (hcalls : t.calls = s.calls ++ [(id, p.call)])
    (hreceived : t.received = s.received ++ [(id, body)])
    (hwaiting : t.waiting = s.waiting ++ [(id, .submitInference p)])
    (hhistory : t.history = s.history) (hconfirmed : t.confirmed = s.confirmed) : Traced E t := by
  refine ⟨?_, fun i call hmem => ?_, fun i w hmem => ?_, fun i call hmem => ?_,
    fun i r hmem hstatus => ?_⟩
  · rw [hcalls]
    refine nodup_log _ h.distinct fun hmem => hid ?_
    obtain ⟨call, hcall⟩ := mem_fst_iff.1 hmem
    exact h.received id call hcall
  · rw [hcalls] at hmem
    rw [hreceived, List.map_append]
    rcases mem_log.1 hmem with hold | ⟨rfl, -⟩
    · exact List.mem_append_left _ (h.received i call hold)
    · exact List.mem_append_right _ (List.mem_singleton_self _)
  · rw [hwaiting] at hmem
    rw [hcalls]
    rcases mem_log.1 hmem with hold | ⟨rfl, rfl⟩
    · exact ⟨(h.waiting i w hold).1, List.mem_append_left _ (h.waiting i w hold).2⟩
    · exact ⟨hp, List.mem_append_right _ (List.mem_singleton_self _)⟩
  · rw [hcalls] at hmem
    rw [hwaiting, hhistory]
    rcases mem_log.1 hmem with hold | ⟨rfl, -⟩
    · exact (h.ended i call hold).imp_left fun ⟨w, hw⟩ => ⟨w, List.mem_append_left _ hw⟩
    · exact Or.inl ⟨_, List.mem_append_right _ (List.mem_singleton_self _)⟩
  · rw [hhistory] at hmem
    rw [hcalls, hconfirmed]
    obtain ⟨htx, p', hp', hproven, hcall⟩ := h.accepted i r hmem hstatus
    exact ⟨htx, p', hp', hproven, List.mem_append_left _ hcall⟩

/-- A transaction has been sent. -/
theorem Traced.send (h : Traced E s) {id : ℕ} {p : Pending} {tx : JsString}
    (hid : (id, .submitInference p) ∈ s.waiting) : Traced E { s.resume id with
      waiting := (s.resume id).waiting ++ [(id, .wait p tx)] } := by
  refine ⟨h.distinct, h.received, fun i w hmem => ?_, fun i call hmem => ?_, h.accepted⟩
  · rcases mem_log.1 hmem with hold | ⟨rfl, rfl⟩
    · exact h.waiting i w (mem_resume.1 hold).1
    · exact h.waiting i (.submitInference p) hid
  · refine (h.ended i call hmem).imp_left fun ⟨w, hw⟩ => ?_
    by_cases hi : i = id
    · subst hi
      exact ⟨_, List.mem_append_right _ (List.mem_singleton_self _)⟩
    · exact ⟨w, List.mem_append_left _ (mem_resume.2 ⟨hw, hi⟩)⟩

/-- A submission comes to its end, and to its record. -/
theorem Traced.settle (h : Traced E s) {id : ℕ} {w : Waiting} {record : HistoryRecord}
    (hid : (id, w) ∈ s.waiting) (hrecord : RecordOf w.pending record)
    (hcalls : t.calls = s.calls) (hreceived : t.received = s.received)
    (hwaiting : t.waiting = (s.resume id).waiting)
    (hhistory : t.history = s.history ++ [(id, record)])
    (hconfirmed : ∀ e ∈ s.confirmed, e ∈ t.confirmed)
    (hstatus : record.status = .accepted → ∃ tx, (id, tx) ∈ t.confirmed) : Traced E t := by
  obtain ⟨hproven, hcall⟩ := h.waiting id w hid
  refine ⟨hcalls ▸ h.distinct, fun i call hmem => ?_, fun i w' hmem => ?_, fun i call hmem => ?_,
    fun i r hmem haccepted => ?_⟩
  · rw [hcalls] at hmem
    exact hreceived ▸ h.received i call hmem
  · rw [hwaiting] at hmem
    rw [hcalls]
    exact h.waiting i w' (mem_resume.1 hmem).1
  · rw [hcalls] at hmem
    rw [hwaiting, hhistory]
    by_cases hi : i = id
    · subst hi
      exact Or.inr ⟨w.pending, record, List.mem_append_right _ (List.mem_singleton_self _), hrecord,
        hproven, call_unique h hcall hmem⟩
    · rcases h.ended i call hmem with ⟨w', hw'⟩ | ⟨p, r, hr, hrest⟩
      · exact Or.inl ⟨w', mem_resume.2 ⟨hw', hi⟩⟩
      · exact Or.inr ⟨p, r, List.mem_append_left _ hr, hrest⟩
  · rw [hhistory] at hmem
    rw [hcalls]
    rcases mem_log.1 hmem with hold | ⟨rfl, rfl⟩
    · obtain ⟨⟨tx, htx⟩, hrest⟩ := h.accepted i r hold haccepted
      exact ⟨⟨tx, hconfirmed _ htx⟩, hrest⟩
    · exact ⟨hstatus haccepted, w.pending, hrecord, hproven, hcall⟩

theorem Traced.enter (h : Traced E s) {id : ℕ} {body : Option Body} {reached : Reached}
    (hid : id ∉ s.received.map Prod.fst)
    (hanswered : ∀ record response, reached = .answered record response → record.status ≠ .accepted)
    (hcalls : ∀ p, reached = .calls p → p.Proven E) :
    Traced E (s.enter id body reached (.ok ())) := by
  cases reached with
  | threw =>
    exact h.answer none rfl rfl rfl (append_entry_none _ id).symm rfl fun _ h => by cases h
  | answered record response =>
    refine h.answer (some record) rfl rfl rfl rfl rfl fun r hr => ?_
    cases hr
    exact hanswered record response rfl
  | calls p => exact h.call hid (hcalls p rfl) rfl rfl rfl rfl rfl

theorem step_traced {a : Action} (h : Traced E s) (hstep : s.step E (a.withDisk (.ok ())) = some t) :
    Traced E t := by
  have hran := ran_of_step hstep
  cases a with
  | submit id receivedAt body disk =>
    cases hran with
    | submit hid =>
      exact h.enter hid (fun _ _ h => (handleSubmit_answered h).status) fun _ => handleSubmit_proven
  | signInference id receivedAt body nc disk =>
    cases hran with
    | signInference hid =>
      exact h.enter hid (fun _ _ h => (handleSign_answered h).status)
        fun p h => absurd h (handleSign_not_calls _ _ _ p)
  | submitInference id now tx disk =>
    cases hran with
    | sent tx hid => exact h.send hid
    | notSent hid =>
      exact h.settle hid (recordOf_failed _ now _) rfl rfl rfl rfl (fun _ h => h) fun h => by cases h
  | wait id now receipt disk diskInCatch =>
    cases hran with
    | confirmed hid =>
      exact h.settle hid (recordOf_accepted _ _) rfl rfl rfl rfl
        (fun _ h => List.mem_append_left _ h)
        fun _ => ⟨_, List.mem_append_right _ (List.mem_singleton_self _)⟩
    | notConfirmed hid =>
      exact h.settle hid (recordOf_failed _ now _) rfl rfl rfl rfl (fun _ h => h) fun h => by cases h

theorem traced_init : Traced E Server.init := by
  refine ⟨List.nodup_nil, ?_, ?_, ?_, ?_⟩
  all_goals
    intro id x h
    cases h

end

/-! ## What the contract has of a backend -/

/-- The attestations of the requests stand in the contract in the order in which they were mined. -/
structure Placed (relayer : Address) (d : Deployment) : Prop where
  once : (d.mined.map Prod.fst).Nodup
  placed : (d.mined.map Prod.snd).Sublist d.oracle.attestations
  own : ∀ id att, (id, att) ∈ d.mined → att.relayer = relayer

/-- Nobody else stores attestations with the key of the backend. -/
def KeepsOff (relayer : Address) : Event → Prop
  | .transact txn => ∀ att, txn.stores = some att → att.relayer ≠ relayer
  | _ => True

/-- All that the contract has from the key of the backend was mined for a request. -/
def Alone (relayer : Address) (d : Deployment) : Prop :=
  d.oracle.attestations.filter (fun att => att.relayer = relayer) = d.mined.map Prod.snd

section
variable {E : Ethers} {abi : Abi E} {relayer deployer : Address} {d t : Deployment}

theorem relayer_of_encode {call : Call} {txn : Transaction} {att : Attestation}
    (h : abi.encode relayer call = some txn) (hatt : txn.stores = some att) :
    att.relayer = relayer := by
  obtain ⟨deviceId, -, h⟩ := Option.bind_eq_some_iff.1 h
  obtain ⟨result, -, h⟩ := Option.bind_eq_some_iff.1 h
  obtain ⟨timestamp, -, h⟩ := Option.bind_eq_some_iff.1 h
  obtain ⟨imageHash, -, h⟩ := Option.bind_eq_some_iff.1 h
  obtain ⟨payloadHash, -, h⟩ := Option.bind_eq_some_iff.1 h
  cases h
  cases hatt
  rfl

/-- What a transaction adds to the contract. -/
theorem attestations_execute (hlen : d.oracle.attestations.length < 2 ^ 256) (txn : Transaction) :
    (d.oracle.execute txn).attestations = d.oracle.attestations ∨
      ∃ att, txn.stores = some att ∧
        (d.oracle.execute txn).attestations = d.oracle.attestations ++ [att] := by
  obtain heq | hcall := execute_cases txn d.oracle
  · exact Or.inl (by rw [heq])
  · obtain ⟨relayer', -, heq⟩ | ⟨att, hstores, -, -, heq⟩ := call_cases hlen hcall
    · exact Or.inl (by rw [heq])
    · exact Or.inr ⟨att, hstores, by rw [heq]⟩

/-- A transaction of a request is mined, or reverts. -/
theorem mine_cases (hd : Deployed abi relayer deployer d) {id : ℕ} (h : d.mine id = some t) :
    t = d ∨ ∃ att, id ∉ d.mined.map Prod.fst ∧ att.relayer = relayer ∧ t.server = d.server ∧
      t.mined = d.mined ++ [(id, att)] ∧
      t.oracle.attestations = d.oracle.attestations ++ [att] := by
  obtain ⟨hfresh, h⟩ := Option.ite_none_left_eq_some.1 h
  obtain ⟨⟨i, txn⟩, hfind, h⟩ := Option.bind_eq_some_iff.1 h
  cases hcall : d.oracle.call txn with
  | none =>
    simp only [hcall] at h
    exact Or.inl (Option.some.inj h).symm
  | some oracle =>
    simp only [hcall] at h
    obtain ⟨att, hstores, rfl⟩ := Option.map_eq_some_iff.1 h
    obtain ⟨call, -, htxn⟩ := hd.sent i txn (List.mem_of_find?_eq_some hfind)
    obtain ⟨txns, htxns⟩ := hd.oracle
    refine Or.inr ⟨att, fun hmem => hfresh ?_, relayer_of_encode htxn hstores, rfl, rfl, ?_⟩
    · obtain ⟨att', hatt'⟩ := mem_fst_iff.1 hmem
      exact List.any_eq_true.2 ⟨_, hatt', beq_self_eq_true id⟩
    · obtain ⟨relayer', rfl, -⟩ | ⟨att', hstores', -, -, rfl⟩ :=
        call_cases (Oracle.run_inv htxns).length hcall
      · cases hstores
      · rw [hstores, Option.some.injEq] at hstores'
        rw [hstores']

theorem step_placed {e : Event} (hd : Deployed abi relayer deployer d) (h : Placed relayer d)
    (hstep : d.step abi relayer e = some t) : Placed relayer t := by
  cases e with
  | handle a =>
    obtain ⟨server, -, hstep⟩ := Option.bind_eq_some_iff.1 hstep
    obtain ⟨txns, -, rfl⟩ := Option.map_eq_some_iff.1 hstep
    exact ⟨h.once, h.placed, h.own⟩
  | transact txn =>
    cases hstep
    exact ⟨h.once, h.placed.trans (oracle_execute hd txn).2.sublist, h.own⟩
  | mine id =>
    rcases mine_cases hd hstep with rfl | ⟨att, hfresh, hrelayer, -, hmined, hattestations⟩
    · exact h
    · refine ⟨?_, ?_, fun i att' hmem => ?_⟩
      · rw [hmined]
        exact nodup_log att h.once hfresh
      · rw [hmined, hattestations, List.map_append]
        exact h.placed.append (List.Sublist.refl _)
      · rw [hmined] at hmem
        rcases mem_log.1 hmem with hold | ⟨-, rfl⟩
        · exact h.own i att' hold
        · exact hrelayer

theorem step_alone {e : Event} (hd : Deployed abi relayer deployer d) (h : Alone relayer d)
    (he : KeepsOff relayer e) (hstep : d.step abi relayer e = some t) : Alone relayer t := by
  cases e with
  | handle a =>
    obtain ⟨server, -, hstep⟩ := Option.bind_eq_some_iff.1 hstep
    obtain ⟨txns, -, rfl⟩ := Option.map_eq_some_iff.1 hstep
    exact h
  | transact txn =>
    cases hstep
    obtain ⟨txns, htxns⟩ := hd.oracle
    obtain hsame | ⟨att, hstores, hadded⟩ := attestations_execute (Oracle.run_inv htxns).length txn
    · rw [Alone, hsame]
      exact h
    · rw [Alone, hadded, List.filter_append, h]
      simp [he att hstores]
  | mine id =>
    rcases mine_cases hd hstep with rfl | ⟨att, -, hrelayer, -, hmined, hattestations⟩
    · exact h
    · rw [Alone, hattestations, hmined, List.filter_append, h, List.map_append]
      simp [hrelayer]

/-- The attestations that stand in order among others have places of their own. -/
theorem exists_place {α : Type} {mined : List (ℕ × α)} {attestations : List α}
    (hnd : (mined.map Prod.fst).Nodup) (hsub : (mined.map Prod.snd).Sublist attestations) :
    ∃ place : ℕ → ℕ, Set.InjOn place {id | id ∈ mined.map Prod.fst} ∧
      ∀ id att, (id, att) ∈ mined → attestations[place id]? = some att := by
  obtain ⟨f, hf⟩ := List.sublist_iff_exists_orderEmbedding_getElem?_eq.1 hsub
  refine ⟨fun id => f ((mined.map Prod.fst).idxOf id), fun i hi j _ heq => ?_, fun id att hmem => ?_⟩
  · exact (List.idxOf_inj hi).1 (f.injective heq)
  · obtain ⟨n, hn, hget⟩ := List.getElem_of_mem hmem
    have hn' : n < (mined.map Prod.fst).length := by rwa [List.length_map]
    have hid : (mined.map Prod.fst)[n] = id := by rw [List.getElem_map, hget]
    have hidx : (mined.map Prod.fst).idxOf id = n := by rw [← hid, hnd.idxOf_getElem]
    show attestations[f ((mined.map Prod.fst).idxOf id)]? = some att
    rw [hidx, ← hf n, List.getElem?_map, List.getElem?_eq_getElem hn, hget]
    rfl

end

/-! ## Rows of the history -/

def IsAccepted (row : JsValue) : Prop := row.get (js "status") = .str (js "accepted")

/-- The attestation says what the row of the history says: its fields, and the hash of its payload, which
is made of these fields and has the proof for its MAC. -/
structure Attests {E : Ethers} (abi : Abi E) (relayer : Address) (row : JsValue) (att : Attestation) :
    Prop where
  relayer : att.relayer = relayer
  timestamp : abi.uint256 (row.get (js "timestamp")) = some att.timestamp
  fields : ∃ text timestamp imageHash payload,
    row.get (js "sealedSkyText") = .str text ∧ att.result = utf8 text ∧
    (row.get (js "timestamp")).toText = some timestamp ∧
    row.get (js "imageHash") = .str imageHash ∧ att.imageHash = utf8 imageHash ∧
    row.get (js "payload") = .str payload ∧ payload ∈ payloadsOf text timestamp imageHash ∧
    row.get (js "proof") = .str (hmacHex DEVICE_SECRET payload) ∧
    att.payloadHash = abi.keccak (utf8 payload)

section
variable {E : Ethers} {abi : Abi E} {relayer : Address} {att : Attestation} {p : Pending}
  {record : HistoryRecord}

theorem get_record {ps : List (JsString × JsValue)} (hps : record.toJson = .obj ps) {k : JsString}
    {v : JsValue} (hmem : (k, v) ∈ ps) : (asJson record.toJson).get k = propJson v := by
  have hnd : (keys ps).Nodup := by
    cases hps
    simp only [keys_cons, keys_nil]
    decide
  rw [hps, get_asJson hnd, lookup_of_mem hnd hmem]

theorem isAccepted_iff : IsAccepted (asJson record.toJson) ↔ record.status = .accepted := by
  have hrejected : js "rejected" ≠ js "accepted" := by decide
  have hsigned : js "device_signed" ≠ js "accepted" := by decide
  rw [IsAccepted, get_record rfl (v := record.status.toJson) (by simp)]
  cases record.status with
  | accepted => exact iff_of_true rfl rfl
  | rejected => simp [Status.toJson, propJson, isUndefined, asJson, hrejected]
  | deviceSigned => simp [Status.toJson, propJson, isUndefined, asJson, hsigned]

/-- A timestamp that `ethers` takes comes back from the file as it was. -/
theorem propJson_of_uint256 {v : JsValue} {n : Uint256} (h : abi.uint256 v = some n) :
    propJson v = v := by
  cases v with
  | str s => rfl
  | num x =>
    obtain ⟨d, rfl, -⟩ := abi.uint256_num x n h
    rfl
  | _ =>
    rw [abi.uint256_other _ (fun _ h => by cases h) (fun _ h => by cases h)] at h
    cases h

theorem attests_of_record (hp : p.Proven E) (hrecord : RecordOf p record)
    (henc : Encoded abi p.call att) (hrelayer : att.relayer = relayer) :
    Attests abi relayer (asJson record.toJson) att := by
  obtain ⟨⟨timestamp, imageHash, hts, hih, hpayload⟩, hproof, hhash⟩ := hp
  obtain ⟨s, hs, himage⟩ := henc.imageHash
  have hs : p.imageHash = .str s := hs
  rw [hs, JsValue.toText_str, Option.some.injEq] at hih
  subst hih
  have huint : abi.uint256 p.timestamp = some att.timestamp := henc.timestamp
  have hts' : (asJson record.toJson).get (js "timestamp") = p.timestamp := by
    rw [get_record rfl (v := record.timestamp) (by simp), hrecord.timestamp, propJson_of_uint256 huint]
  refine ⟨hrelayer, by rw [hts', huint], p.sealedSkyText, timestamp, s, p.matchedPayload, ?_,
    henc.result, by rw [hts', hts], ?_, himage, ?_, hpayload, ?_, ?_⟩
  · rw [get_record rfl (v := .str record.sealedSkyText) (by simp), hrecord.sealedSkyText]
    rfl
  · rw [get_record rfl (v := record.imageHash) (by simp), hrecord.imageHash, hs]
    rfl
  · rw [get_record rfl (v := record.payload.elim .undefined .str) (by simp), hrecord.payload]
    rfl
  · rw [get_record rfl (v := record.proof) (by simp), hrecord.proof, hproof]
    rfl
  · have hbytes : abi.bytes32 p.payloadHash = some att.payloadHash := henc.payloadHash
    rw [hhash, abi.bytes32_keccak, Option.some.injEq] at hbytes
    exact hbytes.symm

end

/-! ## The whole backend -/

/-- What the backend runs with. -/
structure Setup (E : Ethers) where
  abi : Abi E
  syntaxError : JsString
  config : NamestoneConfig
  address : JsString
  relayer : Address
  deployer : Address
  file : File

/-- The backend on its file, the rows of NameStone, the contract, and the transactions on their way. -/
structure Ledger where
  site : Site
  oracle : TrustedEdgeOracle
  sent : List (ℕ × Transaction)
  mined : List (ℕ × Attestation)

inductive LedgerEvent where
  | site (a : SiteAction)
  | mine (id : ℕ)
  | transact (txn : Transaction)

namespace Ledger

def deployment (l : Ledger) : Deployment := ⟨l.site.recorder.server, l.oracle, l.sent, l.mined⟩

variable {E : Ethers} (S : Setup E) (l : Ledger)

def sends : SiteAction → Option (List (ℕ × Transaction))
  | .request a => l.deployment.sends S.abi S.relayer a
  | _ => some []

def step : LedgerEvent → Option Ledger
  | .site a => (l.sends S a).bind fun txns =>
    (l.site.step E S.syntaxError S.config S.address a).map fun site =>
      { l with site, sent := l.sent ++ txns }
  | .mine id => (l.deployment.mine id).map fun d => { l with oracle := d.oracle, mined := d.mined }
  | .transact txn => some { l with oracle := l.oracle.execute txn }

end Ledger

section
variable {E : Ethers} (S : Setup E)

def Setup.site : Lts Site SiteAction := Backend.site E S.syntaxError S.config S.address S.file

def Setup.deployment : Lts Deployment Event := Backend.deployment S.abi S.relayer S.deployer

def Setup.ledger : Lts Ledger LedgerEvent :=
  ⟨⟨S.site.init, deploy S.deployer, [], []⟩, fun l e => l.step S e⟩

/-- Nobody else stores attestations with the key of the backend. -/
def Setup.KeepsOff : LedgerEvent → Prop
  | .transact txn => Backend.KeepsOff S.relayer (.transact txn)
  | _ => True

end

section
variable {E : Ethers} {S : Setup E} {l t : Ledger} {initial : List JsValue}

theorem sends_withDisk (a : Action) (disk : Outcome Unit) :
    l.deployment.sends S.abi S.relayer (a.withDisk disk) = l.sends S (.request a) := by
  cases a with
  | submitInference id now tx disk' => cases tx <;> rfl
  | wait id now receipt disk' diskInCatch => cases receipt <;> rfl
  | _ => rfl

/-- What is mined is no matter of the server. -/
theorem mine_frame {d t : Deployment} {id : ℕ} (h : d.mine id = some t) :
    t.server = d.server ∧ t.sent = d.sent := by
  obtain ⟨-, h⟩ := Option.ite_none_left_eq_some.1 h
  obtain ⟨txn, -, h⟩ := Option.bind_eq_some_iff.1 h
  cases hcall : d.oracle.call txn.2 with
  | none =>
    simp only [hcall] at h
    cases h
    exact ⟨rfl, rfl⟩
  | some oracle =>
    simp only [hcall] at h
    obtain ⟨att, -, rfl⟩ := Option.map_eq_some_iff.1 h
    exact ⟨rfl, rfl⟩

/-- The part with NameStone goes its own steps. -/
theorem site_of_step {a : SiteAction} (h : S.ledger.step l (.site a) = some t) :
    S.site.step l.site a = some t.site := by
  have hstep : l.step S (.site a) = some t := h
  obtain ⟨txns, -, hstep⟩ := Option.bind_eq_some_iff.1 hstep
  obtain ⟨site, hsite, rfl⟩ := Option.map_eq_some_iff.1 hstep
  exact hsite

theorem step_of_site {a : SiteAction} {site : Site} (hsends : l.sends S a = some [])
    (h : S.site.step l.site a = some site) :
    S.ledger.step l (.site a) = some { l with site := site } := by
  have h : l.site.step E S.syntaxError S.config S.address a = some site := h
  show (l.sends S a).bind _ = _
  rw [hsends, Option.bind_some, h, Option.map_some, List.append_nil]

theorem step_site {e : LedgerEvent} (h : l.step S e = some t) :
    (∃ a, e = .site a ∧ S.site.step l.site a = some t.site) ∨ t.site = l.site := by
  cases e with
  | site a => exact Or.inl ⟨a, rfl, site_of_step h⟩
  | mine id =>
    obtain ⟨d, -, rfl⟩ := Option.map_eq_some_iff.1 h
    exact Or.inr rfl
  | transact txn =>
    cases h
    exact Or.inr rfl

/-- So does the part with the contract, as long as the file can be read. -/
theorem step_deployment {e : LedgerEvent} (hdisk : diskOf S.syntaxError l.site.recorder.file = .ok ())
    (h : l.step S e = some t) :
    (∃ e', (S.KeepsOff e → KeepsOff S.relayer e') ∧
      S.deployment.step l.deployment e' = some t.deployment) ∨ t.deployment = l.deployment := by
  cases e with
  | site a =>
    obtain ⟨txns, hsends, h⟩ := Option.bind_eq_some_iff.1 h
    obtain ⟨site, hsite, rfl⟩ := Option.map_eq_some_iff.1 h
    cases a with
    | request a =>
      obtain ⟨recorder, hrecorder, rfl⟩ := Option.map_eq_some_iff.1 hsite
      obtain ⟨server, hserver, rfl⟩ := Option.map_eq_some_iff.1 hrecorder
      rw [← sends_withDisk a (.ok ())] at hsends
      rw [hdisk] at hserver
      refine Or.inl ⟨.handle (a.withDisk (.ok ())), fun _ => trivial, ?_⟩
      exact Option.bind_eq_some_iff.2 ⟨server, hserver, Option.map_eq_some_iff.2 ⟨txns, hsends, rfl⟩⟩
    | _ =>
      cases hsends
      cases hsite
      refine Or.inr ?_
      simp only [Ledger.deployment, List.append_nil]
  | mine id =>
    obtain ⟨d, hmine, rfl⟩ := Option.map_eq_some_iff.1 h
    obtain ⟨hserver, hsent⟩ := mine_frame hmine
    have hd : d = ⟨l.site.recorder.server, d.oracle, l.sent, d.mined⟩ := by
      rw [← show d.server = l.site.recorder.server from hserver, ← show d.sent = l.sent from hsent]
    refine Or.inl ⟨.mine id, fun _ => trivial, ?_⟩
    exact hmine.trans (congrArg some hd)
  | transact txn =>
    cases h
    exact Or.inl ⟨.transact txn, fun h => h, rfl⟩

/-! ## What every run keeps -/

structure Ledger.Inv (S : Setup E) (initial : List JsValue) (l : Ledger) : Prop where
  deployed : Deployed S.abi S.relayer S.deployer l.deployment
  placed : Placed S.relayer l.deployment
  recording : Recording E initial l.site.recorder
  traced : Traced E l.site.recorder.server

theorem Ledger.Inv.disk (h : l.Inv S initial) : diskOf S.syntaxError l.site.recorder.file = .ok () := by
  rw [diskOf, h.recording.file]

theorem step_ledger {e : LedgerEvent} (h : l.Inv S initial) (hstep : l.step S e = some t) :
    t.Inv S initial := by
  have hchain : Deployed S.abi S.relayer S.deployer t.deployment ∧ Placed S.relayer t.deployment := by
    rcases step_deployment h.disk hstep with ⟨e', -, hdeployment⟩ | hsame
    · exact ⟨step_deployed h.deployed hdeployment, step_placed h.deployed h.placed hdeployment⟩
    · exact hsame ▸ ⟨h.deployed, h.placed⟩
  have hserver : Recording E initial t.site.recorder ∧ Traced E t.site.recorder.server := by
    rcases step_site hstep with ⟨a, -, hsite⟩ | hsame
    · cases a with
      | request a =>
        obtain ⟨recorder, hrecorder, hrecorded⟩ := Option.map_eq_some_iff.1 hsite
        have hrecording := step_recording h.recording hrecorder
        rw [← hrecorded]
        refine ⟨hrecording, ?_⟩
        obtain ⟨server, hserver, rfl⟩ := Option.map_eq_some_iff.1 hrecorder
        rw [h.disk] at hserver
        exact step_traced h.traced hserver
      | _ =>
        have hrecorder : t.site.recorder = l.site.recorder := by
          rw [← Option.some.inj hsite]
        exact hrecorder ▸ ⟨h.recording, h.traced⟩
    · exact hsame ▸ ⟨h.recording, h.traced⟩
  exact ⟨hchain.1, hchain.2, hserver.1, hserver.2⟩

theorem ledger_init (hfile : Holds S.file initial) : S.ledger.init.Inv S initial := by
  refine ⟨deployed_init, ⟨List.nodup_nil, List.Sublist.refl _, ?_⟩, ⟨inv_init E, quiet_init,
    audited_init, ?_⟩, traced_init⟩
  · rintro id att ⟨⟩
  · exact hfile.read.trans (congrArg some (List.append_nil initial).symm)

theorem run_ledger {es : List LedgerEvent} (hfile : Holds S.file initial)
    (hrun : S.ledger.run S.ledger.init es = some l) : l.Inv S initial :=
  Lts.run_inv (P := Ledger.Inv S initial) (fun _ _ _ => step_ledger) (ledger_init hfile) hrun

/-- An event of the part with the contract, with the file operations going through. -/
def Event.withDisk : Event → Event
  | .handle a => .handle (a.withDisk (.ok ()))
  | e => e

def LedgerEvent.ofEvent : Event → LedgerEvent
  | .handle a => .site (.request a)
  | .mine id => .mine id
  | .transact txn => .transact txn

/-- The whole backend has the runs of the part with the contract. -/
theorem run_of_deployment {es : List Event} {d : Deployment} (h : l.Inv S initial)
    (hrun : S.deployment.run l.deployment (es.map Event.withDisk) = some d) :
    ∃ t, S.ledger.run l (es.map LedgerEvent.ofEvent) = some t ∧ t.deployment = d ∧
      t.site.rows = l.site.rows := by
  induction es generalizing l with
  | nil => exact ⟨l, rfl, Option.some.inj hrun, rfl⟩
  | cons e es ih =>
    obtain ⟨m, hm, hrun⟩ := (Lts.run_cons _).1 hrun
    have hstep : ∃ l', S.ledger.step l (.ofEvent e) = some l' ∧ l'.deployment = m ∧
        l'.site.rows = l.site.rows := by
      cases e with
      | handle a =>
        obtain ⟨server, hserver, hm⟩ := Option.bind_eq_some_iff.1 hm
        obtain ⟨txns, hsends, rfl⟩ := Option.map_eq_some_iff.1 hm
        rw [sends_withDisk] at hsends
        have hserver : Server.step E l.site.recorder.server
            (a.withDisk (diskOf S.syntaxError l.site.recorder.file)) = some server := by
          rw [h.disk]
          exact hserver
        refine ⟨_, Option.bind_eq_some_iff.2 ⟨txns, hsends, Option.map_eq_some_iff.2
          ⟨_, Option.map_eq_some_iff.2 ⟨_, Option.map_eq_some_iff.2 ⟨server, hserver, rfl⟩, rfl⟩, rfl⟩⟩,
          rfl, rfl⟩
      | mine id =>
        obtain ⟨hserver, hsent⟩ := mine_frame hm
        refine ⟨_, Option.map_eq_some_iff.2 ⟨m, hm, rfl⟩, ?_, rfl⟩
        show Deployment.mk l.deployment.server m.oracle l.deployment.sent m.mined = m
        rw [← hserver, ← hsent]
      | transact txn => exact ⟨_, rfl, Option.some.inj hm, rfl⟩
    obtain ⟨l', hl', rfl, hrows⟩ := hstep
    obtain ⟨t, hrun', ht, hrows'⟩ := ih (step_ledger h hl') hrun
    exact ⟨t, (Lts.run_cons _).2 ⟨l', hl', hrun'⟩, ht, hrows'.trans hrows⟩

/-! ## From the history to the chain, and back -/

/-- What the server wrote, as it stands in the file. -/
def rowsOf (s : Server) : List JsValue := s.history.map fun e => asJson e.2.toJson

/-- The request of the `k`-th row. -/
def requestAt (s : Server) (k : ℕ) : ℕ := (s.history[k]?).elim 0 Prod.fst

theorem getElem?_rowsOf {s : Server} {k : ℕ} {row : JsValue} (h : (rowsOf s)[k]? = some row) :
    ∃ record, s.history[k]? = some (requestAt s k, record) ∧ row = asJson record.toJson := by
  rw [rowsOf, List.getElem?_map] at h
  obtain ⟨⟨id, record⟩, hget, rfl⟩ := Option.map_eq_some_iff.1 h
  have hid : requestAt s k = id := by rw [requestAt, hget, Option.elim_some]
  exact ⟨record, hid ▸ hget, rfl⟩

theorem read_rows {r : Recorder} (hfixed : elementsJson initial = initial)
    (h : Recording E initial r) : readHistory r.file = some (initial ++ rowsOf r.server) := by
  have hkept : kept initial r.server = initial := by
    unfold kept
    by_cases hempty : r.server.history.isEmpty = true
    · rw [if_pos hempty]
    · rw [if_neg hempty, hfixed]
  rw [h.file, recordsOf, hkept, elementsJson_eq_map, List.map_map]
  rfl

/-- Each record is of another request. -/
theorem Audited.distinct {s : Server} (h : Audited s) : (s.history.map Prod.fst).Nodup := by
  rw [h.answered]
  exact h.nodup.sublist (List.filter_sublist.map Prod.fst)

theorem encoded_mined (h : l.Inv S initial) {id : ℕ} {att : Attestation} (hmined : (id, att) ∈ l.mined) :
    ∃ call, (id, call) ∈ l.site.recorder.server.calls ∧ Encoded S.abi call att ∧
      att.relayer = S.relayer := by
  obtain ⟨-, txn, hsent, hstores⟩ := h.deployed.mined id att hmined
  obtain ⟨call, hcall, htxn⟩ := h.deployed.sent id txn hsent
  exact ⟨call, hcall, encoded_of_encode htxn hstores, h.placed.own id att hmined⟩

/-- An accepted record has an attestation, of the same request. -/
theorem attested_record (h : l.Inv S initial) {id : ℕ} {record : HistoryRecord}
    (hmem : (id, record) ∈ l.site.recorder.server.history) (haccepted : record.status = .accepted) :
    ∃ att, (id, att) ∈ l.mined ∧ Attests S.abi S.relayer (asJson record.toJson) att := by
  obtain ⟨⟨tx, htx⟩, p, hrecord, hproven, hcall⟩ := h.traced.accepted id record hmem haccepted
  obtain ⟨att, hatt⟩ := h.deployed.confirmed id tx htx
  obtain ⟨call, hcall', henc, hrelayer⟩ := encoded_mined h hatt
  have hsame : call = p.call := call_unique h.traced hcall' hcall
  exact ⟨att, hatt, attests_of_record hproven hrecord (hsame ▸ henc) hrelayer⟩

/-- Rows of one request are one row. -/
theorem requestAt_inj (h : l.Inv S initial) {i j : ℕ} {row row' : JsValue}
    (hi : (rowsOf l.site.recorder.server)[i]? = some row)
    (hj : (rowsOf l.site.recorder.server)[j]? = some row')
    (hsame : requestAt l.site.recorder.server i = requestAt l.site.recorder.server j) : i = j := by
  obtain ⟨record, hi, -⟩ := getElem?_rowsOf hi
  obtain ⟨record', hj, -⟩ := getElem?_rowsOf hj
  have hlt : i < (l.site.recorder.server.history.map Prod.fst).length := by
    rw [List.length_map]
    exact (List.getElem?_eq_some_iff.1 hi).1
  apply (List.getElem?_inj hlt h.recording.audited.distinct).1
  rw [List.getElem?_map, List.getElem?_map, hi, hj, Option.map_some, Option.map_some, hsame]

/-- The accepted rows have attestations of their own. -/
theorem attested_rows (h : l.Inv S initial) :
    ∃ place : ℕ → ℕ,
      Set.InjOn place {k | ∃ row, (rowsOf l.site.recorder.server)[k]? = some row ∧ IsAccepted row} ∧
        ∀ k row, (rowsOf l.site.recorder.server)[k]? = some row → IsAccepted row →
          ∃ att, l.oracle.attestations[place k]? = some att ∧ Attests S.abi S.relayer row att := by
  obtain ⟨place, hinj, hplace⟩ := exists_place h.placed.once h.placed.placed
  have hrow : ∀ k row, (rowsOf l.site.recorder.server)[k]? = some row → IsAccepted row →
      ∃ att, (requestAt l.site.recorder.server k, att) ∈ l.mined ∧
        Attests S.abi S.relayer row att := by
    intro k row hk haccepted
    obtain ⟨record, hget, rfl⟩ := getElem?_rowsOf hk
    exact attested_record h (List.mem_of_getElem? hget) (isAccepted_iff.1 haccepted)
  refine ⟨fun k => place (requestAt l.site.recorder.server k), ?_, ?_⟩
  · rintro i ⟨row, hi, hacc⟩ j ⟨row', hj, hacc'⟩ heq
    obtain ⟨att, hatt, -⟩ := hrow i row hi hacc
    obtain ⟨att', hatt', -⟩ := hrow j row' hj hacc'
    exact requestAt_inj h hi hj (hinj (mem_fst_iff.2 ⟨att, hatt⟩) (mem_fst_iff.2 ⟨att', hatt'⟩) heq)
  · intro k row hk haccepted
    obtain ⟨att, hatt, hattests⟩ := hrow k row hk haccepted
    exact ⟨att, hplace _ _ hatt, hattests⟩

/-- **Every accepted row has an attestation of its own**, in every run whose file operations go
through. -/
theorem run_attested {es : List LedgerEvent} (hfile : Holds S.file initial)
    (hrun : S.ledger.run S.ledger.init es = some l) :
    ∃ rows, readHistory l.site.recorder.file = some (initial ++ rows) ∧
      ∃ place : ℕ → ℕ, Set.InjOn place {k | ∃ row, rows[k]? = some row ∧ IsAccepted row} ∧
        ∀ k row, rows[k]? = some row → IsAccepted row →
          ∃ att, l.oracle.attestations[place k]? = some att ∧ Attests S.abi S.relayer row att := by
  have h := run_ledger hfile hrun
  exact ⟨_, read_rows hfile.fixed h.recording, attested_rows h⟩

theorem run_alone {es : List LedgerEvent} (hfile : Holds S.file initial)
    (hmeets : S.ledger.Meets (fun _ e => S.KeepsOff e) S.ledger.init es)
    (hrun : S.ledger.run S.ledger.init es = some l) : Alone S.relayer l.deployment := by
  have hboth : l.Inv S initial ∧ Alone S.relayer l.deployment := by
    have hinit : Alone S.relayer S.ledger.init.deployment := rfl
    refine Lts.run_inv_of_meets (P := fun l => l.Inv S initial ∧ Alone S.relayer l.deployment)
      (fun l e t h he hstep => ⟨step_ledger h.1 hstep, ?_⟩) ⟨ledger_init hfile, hinit⟩ hmeets hrun
    rcases step_deployment h.1.disk hstep with ⟨e', hoff, hdeployment⟩ | hsame
    · exact step_alone h.1.deployed h.2 (hoff he) hdeployment
    · exact hsame ▸ h.2
  exact hboth.2

/-- **Nothing on the chain is missing from the history**: where the file operations go through and nobody
else uses the key of the backend, the attestations from that key are those of requests, in the order in
which they were mined, and each of these requests has its record, which says the same, or waits for an
answer. -/
theorem run_accounted {es : List LedgerEvent} (hfile : Holds S.file initial)
    (hmeets : S.ledger.Meets (fun _ e => S.KeepsOff e) S.ledger.init es)
    (hrun : S.ledger.run S.ledger.init es = some l) :
    ∃ rows, readHistory l.site.recorder.file = some (initial ++ rows) ∧
      ∃ ids : List ℕ, ids.Nodup ∧
        List.Forall₂ (fun id att => (∃ w, (id, w) ∈ l.site.recorder.server.waiting) ∨
          ∃ k row, rows[k]? = some row ∧ requestAt l.site.recorder.server k = id ∧
            Attests S.abi S.relayer row att) ids
          (l.oracle.attestations.filter fun att => att.relayer = S.relayer) := by
  have h := run_ledger hfile hrun
  have halone : l.oracle.attestations.filter (fun att => att.relayer = S.relayer) =
      l.mined.map Prod.snd := run_alone hfile hmeets hrun
  refine ⟨_, read_rows hfile.fixed h.recording, l.mined.map Prod.fst, h.placed.once, ?_⟩
  rw [halone, List.forall₂_map_left_iff, List.forall₂_map_right_iff, List.forall₂_same]
  rintro ⟨id, att⟩ hmem
  obtain ⟨call, hcall, henc, hrelayer⟩ := encoded_mined h hmem
  refine (h.traced.ended id call hcall).imp_right ?_
  rintro ⟨p, record, hrecord, hof, hproven, rfl⟩
  obtain ⟨k, hk⟩ := List.getElem?_of_mem hrecord
  refine ⟨k, _, ?_, ?_, attests_of_record hproven hof henc hrelayer⟩
  · rw [rowsOf, List.getElem?_map, hk, Option.map_some]
  · rw [requestAt, hk, Option.elim_some]

end

/-! ## One request -/

/-- No history yet, and the key of the backend is the one that deployed. -/
def freshSetup : Setup tabled where
  abi := tabledAbi
  syntaxError := []
  config := smallConfig
  address := js "0x01"
  relayer := 1
  deployer := 1
  file := none

/-- The row of the one request. -/
def attestedRow : JsValue := asJson (acceptedRecord (stampedPending "1") (js "0x01")).toJson

theorem run_fresh : ∃ l, freshSetup.ledger.run freshSetup.ledger.init
    ((attesting "1").map LedgerEvent.ofEvent) = some l ∧ l.mined = [(0, attestedOne)] ∧
      readHistory l.site.recorder.file = some [attestedRow] ∧ l.site.rows = [] := by
  have henc : tabledAbi.encode 1 (stampedPending "1").call = some (.submitInference 1
      attestedOne.deviceId attestedOne.result attestedOne.timestamp attestedOne.imageHash
      attestedOne.payloadHash) := by decide +kernel
  obtain ⟨d, hrun, -, -, hmined, hhistory⟩ := run_attesting (by decide) henc
  have hinit : freshSetup.ledger.init.Inv freshSetup [] := ledger_init holds_none
  obtain ⟨l, hl, rfl, hrows⟩ := run_of_deployment hinit (show freshSetup.deployment.run _
    ((attesting "1").map Event.withDisk) = some d from hrun)
  refine ⟨l, hl, hmined, (read_rows rfl (run_ledger holds_none hl).recording).trans ?_, hrows⟩
  have hhistory : l.site.recorder.server.history =
      [(0, acceptedRecord (stampedPending "1") (js "0x01"))] := hhistory
  rw [rowsOf, hhistory]
  rfl

theorem run_attested_fresh : ∃ (l : Ledger) (rows : List JsValue), l.mined = [(0, attestedOne)] ∧
    readHistory l.site.recorder.file = some ([] ++ rows) ∧
      ∃ place : ℕ → ℕ, Set.InjOn place {k | ∃ row, rows[k]? = some row ∧ IsAccepted row} ∧
        ∀ k row, rows[k]? = some row → IsAccepted row →
          ∃ att, l.oracle.attestations[place k]? = some att ∧ Attests tabledAbi 1 row att := by
  obtain ⟨l, hrun, hmined, -⟩ := run_fresh
  obtain ⟨rows, h⟩ := run_attested holds_none hrun
  exact ⟨l, rows, hmined, h⟩

theorem run_accounted_fresh : ∃ (l : Ledger) (rows : List JsValue), l.mined = [(0, attestedOne)] ∧
    readHistory l.site.recorder.file = some ([] ++ rows) ∧
      ∃ ids : List ℕ, ids.Nodup ∧
        List.Forall₂ (fun id att => (∃ w, (id, w) ∈ l.site.recorder.server.waiting) ∨
          ∃ k row, rows[k]? = some row ∧ requestAt l.site.recorder.server k = id ∧
            Attests tabledAbi 1 row att) ids
          (l.oracle.attestations.filter fun att => att.relayer = 1) := by
  obtain ⟨l, hrun, hmined, -⟩ := run_fresh
  have hmeets : freshSetup.ledger.Meets (fun _ e => freshSetup.KeepsOff e) freshSetup.ledger.init
      ((attesting "1").map LedgerEvent.ofEvent) := by
    refine Lts.meets_of_mem fun s e hmem => ?_
    obtain ⟨e', he', rfl⟩ := List.mem_map.1 hmem
    cases e' with
    | transact txn =>
      have hno : Event.transact txn ∉ attesting "1" := by simp [attesting]
      exact absurd he' hno
    | _ => trivial
  obtain ⟨rows, h⟩ := run_accounted holds_none hmeets hrun
  exact ⟨l, rows, hmined, h⟩

/-! ## From a published name to the chain -/

section
variable {E : Ethers} {S : Setup E} {initial : List JsValue} {before after : List LedgerEvent}
  {m m' t : Ledger} {now : JsString} {options : JsValue} {stores : Bool} {reply : Fetched}
  {p : Prepared} {r : Published} {getNames : GetNames → Fetched}

/-- The part with NameStone runs on its own, and its actions are guarded as they are in the whole. -/
theorem run_site {g : Site → SiteAction → Prop} {es : List LedgerEvent}
    (hmeets : S.ledger.Meets (fun l e => ∀ a, e = .site a → g l.site a) m es)
    (hrun : S.ledger.run m es = some t) :
    ∃ as, S.site.run m.site as = some t.site ∧ S.site.Meets g m.site as := by
  refine Lts.run_part Ledger.site (fun l e t hg hstep => ?_) hmeets hrun
  rcases step_site hstep with ⟨a, rfl, hsite⟩ | hsame
  · exact Or.inl ⟨a, hg a rfl, hsite⟩
  · exact Or.inr hsame

theorem run_site_of_run {es : List LedgerEvent} (hrun : S.ledger.run m es = some t) :
    ∃ as, S.site.run m.site as = some t.site := by
  obtain ⟨as, has, -⟩ := run_site (g := fun _ _ => True)
    (Lts.meets_of_mem fun _ _ _ _ _ => trivial) hrun
  exact ⟨as, has⟩

/-- **What is read under a published name is on the chain**: under a domain of two labels with at most 500
rows, where the file operations go through, NameStone serves what it holds, and a publish was answered
with success and its name not published again since, the rows that are read are those that were
published, rows of the history as it is, and those of them that say `accepted` have attestations of their
own. -/
theorem run_published_attested (mainnetRpc : Option JsString)
    (resolve : JsString → JsString → Resolved) (hfile : Holds S.file initial)
    (hlower : toLowerCase S.config.parentDomain = S.config.parentDomain)
    (htwo : TwoLabels S.config.parentDomain)
    (hbefore : S.ledger.run S.ledger.init before = some m)
    (hprepared : m.site.prepare S.config S.address now options = .ok p)
    (hreply : replyOf S.config p reply = .ok r)
    (hpublish : S.ledger.step m (.site (.publish now options stores reply)) = some m')
    (hafter : S.ledger.run m' after = some t)
    (hspares : S.ledger.Meets
      (fun l e => ∀ a, e = .site a → Spares S.config S.address p.request l.site a) m' after)
    (hcount : (under S.config.parentDomain t.site.rows).length ≤ 500)
    (hserves : Serves S.config t.site.rows getNames) :
    ∃ answer, readValidationEns S.config mainnetRpc getNames resolve (.str r.ens) =
        some (.payload answer) ∧ answer.source = js "namestone" ∧ answer.history = .arr p.slice ∧
      ∃ history first, readHistory t.site.recorder.file = some history ∧
        (∀ k row, p.slice[k]? = some row → history[first + k]? = some row) ∧
        ∃ place : ℕ → ℕ, Set.InjOn place
            {k | ∃ row, p.slice[k]? = some row ∧ initial.length ≤ first + k ∧ IsAccepted row} ∧
          ∀ k row, p.slice[k]? = some row → initial.length ≤ first + k → IsAccepted row →
            ∃ att, t.oracle.attestations[place k]? = some att ∧
              Attests S.abi S.relayer row att := by
  have hrest : S.ledger.run m (.site (.publish now options stores reply) :: after) = some t :=
    (Lts.run_cons _).2 ⟨m', hpublish, hafter⟩
  have hm := run_ledger hfile hbefore
  have ht := run_ledger hfile (Lts.run_trans _ hbefore hrest)
  obtain ⟨as, has⟩ := run_site_of_run hbefore
  obtain ⟨bs, hbs⟩ := run_site_of_run hrest
  -- the history has only grown since
  have hholds : Holds m.site.recorder.file (initial ++ rowsOf m.site.recorder.server) := by
    obtain ⟨early, hearly⟩ := run_holds hfile has
    rwa [← Option.some.inj (hearly.read.symm.trans (read_rows hfile.fixed hm.recording))]
  obtain ⟨newer, hnewer⟩ := run_holds hholds hbs
  have hgrown : initial ++ rowsOf t.site.recorder.server =
      (initial ++ rowsOf m.site.recorder.server) ++ newer :=
    Option.some.inj ((read_rows hfile.fixed ht.recording).symm.trans hnewer.read)
  -- the name is still there
  have hstored : p.request ∈ t.site.rows := by
    obtain ⟨cs, hcs, hmeets⟩ := run_site hspares hafter
    have hsite : m.site.step E S.syntaxError S.config S.address (.publish now options stores reply) =
        some m'.site := site_of_step hpublish
    exact run_kept (publish_mem hprepared hreply hsite) hmeets hcs
  have hprep : preparePublish S.config S.address now options
      (some (initial ++ rowsOf m.site.recorder.server)) = .ok p := by
    rw [← hholds.read]
    exact hprepared
  have hinit : Rows S.site.init.rows := rows_nil
  have hrows : Rows t.site.rows := run_rows (run_rows hinit has) hbs
  obtain ⟨answer, hread, -, hsource, hhistory, -⟩ := read_published mainnetRpc resolve hholds.fixed
    hlower htwo hprep hreply hrows hstored hcount hserves
  obtain ⟨old, hold⟩ := (preparePublish_suffix hprep).1
  have hrow : ∀ k row, p.slice[k]? = some row →
      (initial ++ rowsOf t.site.recorder.server)[old.length + k]? = some row := by
    intro k row hk
    have hlt := (List.getElem?_eq_some_iff.1 hk).1
    rw [hgrown, ← hold, List.append_assoc, List.getElem?_append_right (Nat.le_add_right _ _),
      Nat.add_sub_cancel_left, List.getElem?_append_left hlt, hk]
  have hnew : ∀ k row, p.slice[k]? = some row → initial.length ≤ old.length + k →
      (rowsOf t.site.recorder.server)[old.length + k - initial.length]? = some row := by
    intro k row hk hle
    rw [← hrow k row hk, List.getElem?_append_right hle]
  obtain ⟨place, hinj, hplace⟩ := attested_rows ht
  refine ⟨answer, hread, hsource, hhistory, _, old.length,
    read_rows hfile.fixed ht.recording, hrow, fun k => place (old.length + k - initial.length), ?_, ?_⟩
  · rintro i ⟨row, hi, hle, hacc⟩ j ⟨row', hj, hle', hacc'⟩ heq
    have hsame := hinj ⟨row, hnew i row hi hle, hacc⟩ ⟨row', hnew j row' hj hle', hacc'⟩ heq
    omega
  · intro k row hk hle hacc
    exact hplace _ row (hnew k row hk hle) hacc

end

theorem prepare_attestedRow : ∃ p, prepareSmall (.obj []) [attestedRow] = .ok p ∧
    (p.request.name, p.slice.length) = (js "oracle-validation", 1) :=
  ok_of_map (by decide +kernel)

/-- The one row is published, a capsule gets a name, and then the name is read. -/
theorem run_published_attested_one : ∃ (t : Ledger) (r : Published) (answer : ReadPayload),
    readValidationEns smallConfig none (serve t.site.rows) (fun _ _ => .noResolver) (.str r.ens) =
        some (.payload answer) ∧ answer.source = js "namestone" ∧
      answer.history = .arr [attestedRow] ∧ IsAccepted attestedRow ∧
      ∃ (k : ℕ) (att : Attestation), t.oracle.attestations[k]? = some att ∧
        Attests tabledAbi 1 attestedRow att := by
  obtain ⟨m, hrun, -, hread, hrows⟩ := run_fresh
  obtain ⟨p, hp, hnamed⟩ := prepare_attestedRow
  obtain ⟨hname, hcount⟩ := Prod.mk.inj hnamed
  obtain ⟨r, hprepared, hreply, hpublish, hcapsule, hspares, hserves⟩ :=
    published_all (s := m.site) tabled [] hread hrows hp hname
  let m' : Ledger := { m with site := { m.site with rows := [p.request] } }
  let t : Ledger := { m with site := { m.site with rows := [someCapsule, p.request] } }
  have hpublished : freshSetup.ledger.step m (.site publishAll) = some m' :=
    step_of_site rfl hpublish
  have hcapsuled : freshSetup.ledger.step m' (.site (.capsule [1] someCapsule)) = some t :=
    step_of_site rfl hcapsule
  have hmeets : freshSetup.ledger.Meets (fun l e => ∀ a, e = .site a →
      Spares smallConfig (js "0x01") p.request l.site a) m' [.site (.capsule [1] someCapsule)] := by
    refine (Lts.meets_cons _ hcapsuled).2 ⟨fun a ha => ?_, trivial⟩
    cases ha
    exact hspares
  have hafter : freshSetup.ledger.run m' [.site (.capsule [1] someCapsule)] = some t :=
    (Lts.run_cons _).2 ⟨t, hcapsuled, rfl⟩
  have hfew : (under (js "id144.eth") t.site.rows).length ≤ 500 :=
    (List.length_filter_le _ _).trans (by simp [t])
  obtain ⟨answer, hanswer, hsource, hhistory, history, first, hfile, hslice, place, -, hplace⟩ :=
    run_published_attested (S := freshSetup) (t := t) none (fun _ _ => .noResolver) holds_none
      (by decide) ⟨by decide, by decide⟩ hrun hprepared hreply hpublished hafter hmeets hfew hserves
  obtain ⟨row, hrow⟩ := List.length_eq_one_iff.1 hcount
  have hget : p.slice[0]? = some row := by rw [hrow]; rfl
  have hone : row = attestedRow := by
    have hmem := hslice 0 row hget
    rw [Option.some.inj (hfile.symm.trans hread)] at hmem
    exact List.mem_singleton.1 (List.mem_of_getElem? hmem)
  have haccepted : IsAccepted attestedRow := isAccepted_iff.2 rfl
  obtain ⟨att, hatt, hattests⟩ := hplace 0 row hget (Nat.zero_le _) (hone ▸ haccepted)
  rw [hrow, hone] at hhistory
  exact ⟨t, r, answer, hanswer, hsource, hhistory, haccepted, place 0, att, hatt, hone ▸ hattests⟩

end SealedSky.Backend
