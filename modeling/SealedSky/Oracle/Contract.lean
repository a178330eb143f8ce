import Mathlib.Algebra.Group.Nat.Defs
import SealedSky.Lib.Lts

/-!
# The attestation contract (`trusted-edge-oracle/src/TrustedEdgeOracle.sol`)

A transaction runs one function of the contract to its end, and a call that reverts changes nothing, so
a run is any list of transactions from any senders. A `string` is its bytes, and the array has its
length in a word of 256 bits.

* `call_cases` — all that a transaction can do.
* `run_sound` — what holds of every history of the contract.
-/
namespace SealedSky.Oracle

abbrev Address := BitVec 160

abbrev Uint256 := BitVec 256

abbrev Bytes32 := BitVec 256

/-- TrustedEdgeOracle.sol:7. -/
structure Attestation where
  deviceId : List UInt8
  result : List UInt8
  timestamp : Uint256
  imageHash : List UInt8
  payloadHash : Bytes32
  relayer : Address
  deriving DecidableEq

/-- TrustedEdgeOracle.sol:20. -/
structure InferenceAttested where
  id : Uint256
  deviceId : List UInt8
  result : List UInt8
  timestamp : Uint256
  payloadHash : Bytes32
  relayer : Address
  deriving DecidableEq

/-- The storage of the contract, and the events that it has emitted. -/
structure TrustedEdgeOracle where
  owner : Address
  attestations : List Attestation
  authorizedRelayers : Address → Bool
  events : List InferenceAttested

inductive Transaction where
  | authorizeRelayer (sender relayer : Address)
  | submitInference (sender : Address) (deviceId result : List UInt8) (timestamp : Uint256)
    (imageHash : List UInt8) (payloadHash : Bytes32)
  /-- a getter, or a call that no function takes -/
  | other (sender : Address)
  deriving DecidableEq

/-- The constructor. -/
def deploy (sender : Address) : TrustedEdgeOracle where
  owner := sender
  attestations := []
  authorizedRelayers := fun a => a == sender
  events := []

/-- `x - y`, which reverts where it would be negative. -/
def checkedSub (x y : Uint256) : Option Uint256 := if y ≤ x then some (x - y) else none

/-- `attestations.length`. -/
def lengthOf (attestations : List Attestation) : Uint256 := BitVec.ofNat 256 attestations.length

namespace TrustedEdgeOracle

variable (s : TrustedEdgeOracle)

def onlyOwner (sender : Address) (body : Option TrustedEdgeOracle) : Option TrustedEdgeOracle :=
  if sender = s.owner then body else none

def onlyRelayer (sender : Address) (body : Option TrustedEdgeOracle) : Option TrustedEdgeOracle :=
  if s.authorizedRelayers sender then body else none

def authorizeRelayer (sender relayer : Address) : Option TrustedEdgeOracle :=
  s.onlyOwner sender (some { s with
    authorizedRelayers := fun a => if a = relayer then true else s.authorizedRelayers a })

def submitInference (sender : Address) (deviceId result : List UInt8) (timestamp : Uint256)
    (imageHash : List UInt8) (payloadHash : Bytes32) : Option TrustedEdgeOracle :=
  let attestations := s.attestations ++
    [⟨deviceId, result, timestamp, imageHash, payloadHash, sender⟩]
  s.onlyRelayer sender ((checkedSub (lengthOf attestations) 1).map fun id => { s with
    attestations
    events := s.events ++ [⟨id, deviceId, result, timestamp, payloadHash, sender⟩] })

/-- The state after the call, `none` where it reverts. -/
def call : Transaction → Option TrustedEdgeOracle
  | .authorizeRelayer sender relayer => s.authorizeRelayer sender relayer
  | .submitInference sender deviceId result timestamp imageHash payloadHash =>
    s.submitInference sender deviceId result timestamp imageHash payloadHash
  | .other _ => none

/-- A call that reverts changes nothing. -/
def execute (tx : Transaction) : TrustedEdgeOracle := (s.call tx).getD s

end TrustedEdgeOracle

def oracle (deployer : Address) : Lts TrustedEdgeOracle Transaction :=
  ⟨deploy deployer, fun s tx => some (s.execute tx)⟩

/-! ## What a transaction does -/

/-- What `submitInference` stores. -/
def Transaction.stores : Transaction → Option Attestation
  | .submitInference sender deviceId result timestamp imageHash payloadHash =>
    some ⟨deviceId, result, timestamp, imageHash, payloadHash, sender⟩
  | _ => none

/-- The event of an attestation with the number `k`. -/
def Attestation.event (att : Attestation) (k : ℕ) : InferenceAttested :=
  ⟨BitVec.ofNat 256 k, att.deviceId, att.result, att.timestamp, att.payloadHash, att.relayer⟩

section
variable {deployer : Address} {s t : TrustedEdgeOracle} {tx : Transaction}

/-- The number of the last element. The length of an array of `2 ^ 256` elements would be zero. -/
theorem checkedSub_length {attestations : List Attestation} {att : Attestation} {id : Uint256}
    (h : attestations.length < 2 ^ 256)
    (hid : checkedSub (lengthOf (attestations ++ [att])) 1 = some id) :
    id = BitVec.ofNat 256 attestations.length ∧ attestations.length + 1 < 2 ^ 256 := by
  unfold checkedSub at hid
  split at hid
  · rename_i hle
    have hlen : (lengthOf (attestations ++ [att])).toNat = (attestations.length + 1) % 2 ^ 256 := by
      rw [lengthOf, BitVec.toNat_ofNat, List.length_append, List.length_singleton]
    rw [BitVec.le_def, hlen] at hle
    have hone : (1 : Uint256).toNat = 1 := rfl
    rw [hone] at hle
    have hlt : attestations.length + 1 < 2 ^ 256 := by
      by_contra hge
      have heq : attestations.length + 1 = 2 ^ 256 := by omega
      rw [heq, Nat.mod_self] at hle
      omega
    refine ⟨?_, hlt⟩
    cases hid
    apply BitVec.eq_of_toNat_eq
    rw [BitVec.toNat_sub_of_le (by rwa [BitVec.le_def, hlen]), hlen, hone, BitVec.toNat_ofNat,
      Nat.mod_eq_of_lt hlt, Nat.mod_eq_of_lt h]
    omega
  · cases hid

/-- **All that a transaction can do.** -/
theorem call_cases (hlen : s.attestations.length < 2 ^ 256) (h : s.call tx = some t) :
    (∃ relayer, tx = .authorizeRelayer s.owner relayer ∧ t = { s with
        authorizedRelayers := fun a => if a = relayer then true else s.authorizedRelayers a }) ∨
      ∃ att, tx.stores = some att ∧ s.authorizedRelayers att.relayer = true ∧
        s.attestations.length + 1 < 2 ^ 256 ∧ t = { s with
          attestations := s.attestations ++ [att]
          events := s.events ++ [att.event s.attestations.length] } := by
  cases tx with
  | authorizeRelayer sender relayer =>
    obtain ⟨hsender, h⟩ := Option.ite_none_right_eq_some.1 h
    cases h
    exact Or.inl ⟨relayer, by rw [hsender], rfl⟩
  | submitInference sender deviceId result timestamp imageHash payloadHash =>
    obtain ⟨hsender, h⟩ := Option.ite_none_right_eq_some.1 h
    obtain ⟨id, hid, rfl⟩ := Option.map_eq_some_iff.1 h
    obtain ⟨rfl, hlt⟩ := checkedSub_length hlen hid
    exact Or.inr ⟨_, rfl, hsender, hlt, rfl⟩
  | other sender => cases h

/-- A transaction changes nothing, or does what `call_cases` says. -/
theorem execute_cases (tx : Transaction) (s : TrustedEdgeOracle) :
    s.execute tx = s ∨ s.call tx = some (s.execute tx) := by
  unfold TrustedEdgeOracle.execute
  cases h : s.call tx with
  | none => exact Or.inl rfl
  | some t => exact Or.inr rfl

/-! ## Every history -/

/-- The attestation was the `k`-th that was stored, by an authorised relayer. -/
def StoredBy (deployer : Address) (txs : List Transaction) (k : ℕ) (att : Attestation) : Prop :=
  ∃ before tx after m, txs = before ++ tx :: after ∧ tx.stores = some att ∧
    (oracle deployer).run (deploy deployer) before = some m ∧ m.attestations.length = k ∧
    m.authorizedRelayers att.relayer = true

structure Inv (deployer : Address) (txs : List Transaction) (s : TrustedEdgeOracle) : Prop where
  owner : s.owner = deployer
  authorized : ∀ a, s.authorizedRelayers a = true →
    a = deployer ∨ .authorizeRelayer deployer a ∈ txs
  length : s.attestations.length < 2 ^ 256
  stored : ∀ k att, s.attestations[k]? = some att → StoredBy deployer txs k att
  relayer : ∀ att ∈ s.attestations, s.authorizedRelayers att.relayer = true
  events : s.events = s.attestations.mapIdx fun k att => att.event k

/-- What only grows. -/
structure Grows (s t : TrustedEdgeOracle) : Prop where
  attestations : s.attestations <+: t.attestations
  events : s.events <+: t.events
  authorized : ∀ a, s.authorizedRelayers a = true → t.authorizedRelayers a = true

theorem Grows.refl (s : TrustedEdgeOracle) : Grows s s :=
  ⟨List.prefix_refl _, List.prefix_refl _, fun _ h => h⟩

theorem Grows.trans {u : TrustedEdgeOracle} (h : Grows s t) (h' : Grows t u) : Grows s u :=
  ⟨h.attestations.trans h'.attestations, h.events.trans h'.events,
    fun a ha => h'.authorized a (h.authorized a ha)⟩

theorem StoredBy.append {txs : List Transaction} {k : ℕ} {att : Attestation}
    (h : StoredBy deployer txs k att) (tx : Transaction) : StoredBy deployer (txs ++ [tx]) k att := by
  obtain ⟨before, tx', after, m, rfl, hstores, hrun, hk, hauth⟩ := h
  refine ⟨before, tx', after ++ [tx], m, ?_, hstores, hrun, hk, hauth⟩
  rw [List.append_assoc, List.cons_append]

theorem inv_deploy (deployer : Address) : Inv deployer [] (deploy deployer) := by
  refine ⟨rfl, fun a ha => Or.inl (eq_of_beq ha), Nat.two_pow_pos 256, ?_, ?_, rfl⟩
  · intro k att h
    cases h
  · intro att h
    cases h

theorem authorizes {relayer a : Address} (ha : s.authorizedRelayers a = true) :
    (if a = relayer then true else s.authorizedRelayers a) = true := by
  split
  · rfl
  · exact ha

theorem execute_grows (tx : Transaction) (hlen : s.attestations.length < 2 ^ 256) :
    Grows s (s.execute tx) := by
  obtain heq | hcall := execute_cases tx s
  · rw [heq]
    exact Grows.refl s
  · obtain ⟨relayer, -, heq⟩ | ⟨att, -, -, -, heq⟩ := call_cases hlen hcall
    · rw [heq]
      refine ⟨List.prefix_refl _, List.prefix_refl _, fun a ha => ?_⟩
      exact authorizes ha
    · rw [heq]
      exact ⟨List.prefix_append _ _, List.prefix_append _ _, fun _ ha => ha⟩

theorem execute_inv {txs : List Transaction} (tx : Transaction)
    (hrun : (oracle deployer).run (deploy deployer) txs = some s) (h : Inv deployer txs s) :
    Inv deployer (txs ++ [tx]) (s.execute tx) := by
  have hold : ∀ k att, s.attestations[k]? = some att → StoredBy deployer (txs ++ [tx]) k att :=
    fun k att hk => (h.stored k att hk).append tx
  have hauth : ∀ a, s.authorizedRelayers a = true →
      a = deployer ∨ .authorizeRelayer deployer a ∈ txs ++ [tx] :=
    fun a ha => (h.authorized a ha).imp_right fun hmem => List.mem_append_left _ hmem
  obtain heq | hcall := execute_cases tx s
  · rw [heq]
    exact ⟨h.owner, hauth, h.length, hold, h.relayer, h.events⟩
  obtain ⟨relayer, htx, heq⟩ | ⟨att, hstores, hrelayer, hlen, heq⟩ := call_cases h.length hcall
  · rw [heq]
    refine ⟨h.owner, fun a ha => ?_, h.length, hold, fun att hatt => ?_, h.events⟩
    · by_cases hnew : a = relayer
      · rw [hnew, htx, h.owner]
        exact Or.inr (List.mem_append_right _ (List.mem_singleton_self _))
      · exact hauth a ((if_neg hnew).symm.trans ha)
    · exact authorizes (h.relayer att hatt)
  · rw [heq]
    refine ⟨h.owner, hauth, ?_, fun k att' hk => ?_, fun att' hatt => ?_, ?_⟩
    · simpa using hlen
    · by_cases hlast : k < s.attestations.length
      · rw [List.getElem?_append_left hlast] at hk
        exact hold k att' hk
      · rw [List.getElem?_append_right (Nat.not_lt.1 hlast), List.getElem?_singleton] at hk
        obtain ⟨hk, heq⟩ := Option.ite_none_right_eq_some.1 hk
        cases heq
        exact ⟨txs, tx, [], s, rfl, hstores, hrun, by omega, hrelayer⟩
    · rcases List.mem_append.1 hatt with hatt | hatt
      · exact h.relayer att' hatt
      · rw [List.mem_singleton.1 hatt]
        exact hrelayer
    · simp only [h.events, List.mapIdx_append, List.mapIdx_cons, List.mapIdx_nil, Nat.zero_add]

theorem run_inv {txs : List Transaction}
    (hrun : (oracle deployer).run (deploy deployer) txs = some s) : Inv deployer txs s := by
  refine Lts.run_inv_history (P := Inv deployer) (inv_deploy deployer) ?_ hrun
  intro txs m tx t hm hinv hstep
  cases hstep
  exact execute_inv tx hm hinv

theorem run_grows {txs txs' : List Transaction}
    (hs : (oracle deployer).run (deploy deployer) txs = some s)
    (ht : (oracle deployer).run s txs' = some t) : Grows s t := by
  refine Lts.run_inv_history (P := fun _ t => Grows s t) (Grows.refl s) ?_ ht
  intro txs' m tx t hm hgrows hstep
  cases hstep
  have hall : (oracle deployer).run (deploy deployer) (txs ++ txs') = some m := by
    rw [Lts.run_append, hs]
    exact hm
  exact hgrows.trans (execute_grows tx (run_inv hall).length)

/-- The event tells of the attestation, with `k` for its number. -/
structure Tells (e : InferenceAttested) (k : ℕ) (att : Attestation) : Prop where
  id : e.id.toNat = k
  deviceId : e.deviceId = att.deviceId
  result : e.result = att.result
  timestamp : e.timestamp = att.timestamp
  payloadHash : e.payloadHash = att.payloadHash
  relayer : e.relayer = att.relayer

/-- A history of transactions to `s`, and a later state `t`. -/
structure Sound (deployer : Address) (txs : List Transaction) (s t : TrustedEdgeOracle) : Prop where
  owner : s.owner = deployer
  authorized : ∀ a, s.authorizedRelayers a = true →
    a = deployer ∨ .authorizeRelayer deployer a ∈ txs
  notWithdrawn : ∀ a, s.authorizedRelayers a = true → t.authorizedRelayers a = true
  append_only : s.attestations <+: t.attestations
  stored : ∀ k att, s.attestations[k]? = some att →
    StoredBy deployer txs k att ∧ s.authorizedRelayers att.relayer = true
  one_each : s.events.length = s.attestations.length
  events : ∀ k e, s.events[k]? = some e → ∃ att, s.attestations[k]? = some att ∧ Tells e k att

/-- **What holds of every history of the contract**, and of every later one. -/
theorem run_sound {txs txs' : List Transaction}
    (hs : (oracle deployer).run (deploy deployer) txs = some s)
    (ht : (oracle deployer).run s txs' = some t) : Sound deployer txs s t := by
  have hinv := run_inv hs
  have hgrows := run_grows hs ht
  refine ⟨hinv.owner, hinv.authorized, hgrows.authorized, hgrows.attestations,
    fun k att hk => ?_, ?_, fun k e hk => ?_⟩
  · exact ⟨hinv.stored k att hk, hinv.relayer att (List.mem_of_getElem? hk)⟩
  · rw [hinv.events, List.length_mapIdx]
  · rw [hinv.events, List.getElem?_mapIdx] at hk
    obtain ⟨att, hatt, rfl⟩ := Option.map_eq_some_iff.1 hk
    refine ⟨att, hatt, ?_, rfl, rfl, rfl, rfl, rfl⟩
    have hlt : k < 2 ^ 256 :=
      Nat.lt_trans (List.getElem?_eq_some_iff.1 hatt).1 hinv.length
    exact (BitVec.toNat_ofNat k 256).trans (Nat.mod_eq_of_lt hlt)

/-- The deployer authorises 2, which then stores an attestation; 3 may do neither. -/
theorem run_sound_relayed : ∃ s t,
    (oracle 1).run (deploy 1) [.authorizeRelayer 1 2, .submitInference 3 [] [] 0 [] 0,
        .submitInference 2 [7] [8] 5 [9] 6] = some s ∧
      (oracle 1).run s [.authorizeRelayer 3 3] = some t ∧ s.attestations = [⟨[7], [8], 5, [9], 6, 2⟩] ∧
      Sound 1 [.authorizeRelayer 1 2, .submitInference 3 [] [] 0 [] 0,
        .submitInference 2 [7] [8] 5 [9] 6] s t :=
  ⟨_, _, rfl, rfl, by decide, @run_sound 1 _ _ _ [.authorizeRelayer 3 3] rfl rfl⟩

end

end SealedSky.Oracle
