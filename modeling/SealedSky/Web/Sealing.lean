import SealedSky.Web.Ctrng
import SealedSky.Web.Share

/-!
# Sealing, and the link of what was sealed (`sealed-sky-web/src/App.tsx:176-241`)

What sealing takes from outside is an argument here: the replies of the gateways, the random bytes, the
clock and the new id.

* `reopens_sealCtrng` — the link of a sealed cTRNG item carries all it takes to open it.
-/
namespace SealedSky.Web.App

open Js Fallible

/-- App.tsx:176, with the round, the unlock time and the ciphertext that drand and tlock have given. -/
def sealDrand (round actualUnlock : JsNum) (ct : List UInt8) (recipientEns senderEns : Option JsString)
    (newId : JsString) (now : TimeValue) : QueueItem where
  id := newId
  backend := .drand
  envelope := pack round ct senderEns recipientEns
  round := .num round
  unlockUnix := .num actualUnlock
  createdAt := .num (secondsOf now)
  status := .sealed
  senderEns := senderEns
  recipientEns := recipientEns

/-- The target sequence of App.tsx:207; without a beacon there is none. -/
def targetSequence (unlockUnix : JsNum) (reply : JsString → Reply) : Option JsNum :=
  match fetchLatestBeacon reply with
  | .ok ref => some (estimateTargetSequence unlockUnix ref)
  | .error _ => none

/-- App.tsx:205. -/
def sealCtrng (A : AesGcm) (message : JsString) (unlockUnix : JsNum)
    (recipientEns senderEns : Option JsString) (reply : JsString → Reply) (keyBytes iv : List UInt8)
    (newId : JsString) (now : TimeValue) : Result QueueItem := do
  let targetSeq := targetSequence unlockUnix reply
  let sealed ← symSeal A keyBytes iv message unlockUnix
  .ok
    { id := newId
      backend := .ctrng
      envelope := packCtrng unlockUnix targetSeq sealed.ct sealed.iv sealed.commit senderEns recipientEns
      unlockUnix := .num unlockUnix
      createdAt := .num (secondsOf now)
      status := .sealed
      ctrngKeyB64 := some (bytesToB64 sealed.key)
      ctrngTargetSequence := optionalNumber targetSeq
      senderEns := senderEns
      recipientEns := recipientEns }

/-! ## What a link carries -/

/-- What an attempt to unseal reads of an item is what `symSeal` has made, and the commitment
verifies (App.tsx:286-304). -/
def Opens (item : QueueItem) (sealed : SymSealed) : Prop :=
  ∃ parsed k, unpackCtrng item.envelope = .ok parsed ∧ item.ctrngKeyB64 = some k ∧
    b64ToBytes (.str k) = .ok sealed.key ∧ parsed.ct = sealed.ct ∧ parsed.iv = sealed.iv ∧
    verifyCommitment parsed.commit sealed.key parsed.iv parsed.unlockUnix = .ok true

/-- The link of an item carries its envelope, its time and its key, and the item that is built from
the link has the same times and opens. -/
def Reopens (location : Location) (item : QueueItem) (sealed : SymSealed) (now : TimeValue)
    (newId : JsString) : Prop :=
  ∃ url imp reopened, buildShareUrl location item = .ok url ∧
    parseFragment (hashOf url) now = some imp ∧ buildItemFromImport imp newId = .ok reopened ∧
    imp.envelope = item.envelope ∧ .num imp.createdAt = item.createdAt ∧
    imp.ctrngKeyB64 = item.ctrngKeyB64 ∧ reopened.unlockUnix = item.unlockUnix ∧
    reopened.ctrngTargetSequence = item.ctrngTargetSequence ∧ Opens reopened sealed

/-- What `symSeal` returns. -/
theorem symSeal_cases {A : AesGcm} {keyBytes iv : List UInt8} {message : JsString}
    {unlockUnix : JsNum} {sealed : SymSealed} (h : symSeal A keyBytes iv message unlockUnix = .ok sealed) :
    keyBytes ≠ [] ∧ sealed.key = keyBytes ∧ sealed.iv = iv ∧
      commitment keyBytes iv (.num unlockUnix) = .ok sealed.commit := by
  unfold symSeal at h
  cases hkey : importsKey keyBytes with
  | false =>
    rw [hkey] at h
    cases h
  | true =>
    rw [hkey] at h
    obtain ⟨-, -, h⟩ := bind_eq_ok.1 h
    obtain ⟨commit, hcommit, h⟩ := bind_eq_ok.1 h
    cases h
    refine ⟨?_, rfl, rfl, hcommit⟩
    rintro rfl
    cases hkey

section
variable {A : AesGcm} {message : JsString} {unlockUnix : JsNum}
  {recipientEns senderEns : Option JsString} {reply : JsString → Reply} {keyBytes iv : List UInt8}
  {id : JsString} {now : TimeValue} {item : QueueItem}

/-- What `sealCtrng` returns. -/
theorem sealCtrng_cases
    (h : sealCtrng A message unlockUnix recipientEns senderEns reply keyBytes iv id now = .ok item) :
    ∃ sealed, symSeal A keyBytes iv message unlockUnix = .ok sealed ∧ item =
      { id
        backend := .ctrng
        envelope := packCtrng unlockUnix (targetSequence unlockUnix reply) sealed.ct sealed.iv
          sealed.commit senderEns recipientEns
        unlockUnix := .num unlockUnix
        createdAt := .num (secondsOf now)
        status := .sealed
        ctrngKeyB64 := some (bytesToB64 sealed.key)
        ctrngTargetSequence := optionalNumber (targetSequence unlockUnix reply)
        senderEns, recipientEns } := by
  obtain ⟨sealed, hsealed, h⟩ := bind_eq_ok.1 h
  exact ⟨sealed, hsealed, (Except.ok.inj h).symm⟩

theorem sealCtrng_fields
    (h : sealCtrng A message unlockUnix recipientEns senderEns reply keyBytes iv id now = .ok item) :
    item.createdAt = .num (secondsOf now) ∧
      item.ctrngTargetSequence = optionalNumber (targetSequence unlockUnix reply) ∧
      item.capsuleEns = none := by
  obtain ⟨sealed, -, rfl⟩ := sealCtrng_cases h
  exact ⟨rfl, rfl, rfl⟩

/-- The link of a sealed item, also of one that was updated since, and the item built from it. -/
theorem link_sealCtrng {x : Binary64.Double}
    (h : sealCtrng A message unlockUnix recipientEns senderEns reply keyBytes iv id now = .ok item)
    (hnow : secondsOf now = .fin x) {patches : List Patch}
    (hens : nonEmpty (patches.foldl QueueItem.patch item).capsuleEns = none)
    (location : Location) (now' : TimeValue) (id' : JsString) :
    ∃ sealed url imp reopened, symSeal A keyBytes iv message unlockUnix = .ok sealed ∧
      buildShareUrl location (patches.foldl QueueItem.patch item) = .ok url ∧
      parseFragment (hashOf url) now' = some imp ∧ buildItemFromImport imp id' = .ok reopened ∧
      imp.envelope = item.envelope ∧ imp.ctrngKeyB64 = item.ctrngKeyB64 ∧
      imp.createdAt = (if isDigits (Js.toString (.fin x)) then parseInt (Js.toString (.fin x))
        else secondsOf now') ∧
      reopened.unlockUnix = item.unlockUnix ∧
      reopened.ctrngTargetSequence = propJson item.ctrngTargetSequence ∧ Opens reopened sealed := by
  obtain ⟨sealed, hsealed, rfl⟩ := sealCtrng_cases h
  obtain ⟨hkey, hsealedKey, hsealedIv, hcommit⟩ := symSeal_cases hsealed
  obtain ⟨_, hnum, hfin⟩ := commitment_finite hcommit
  cases hnum
  have hunlock : asJson (.num unlockUnix) = .num unlockUnix := by
    rw [asJson, if_pos hfin]
  have hne : sealed.key ≠ [] := hsealedKey.symm ▸ hkey
  obtain ⟨url, hurl, hparse⟩ := parseFragment_buildShareUrl location now'
    hens (QueueItem.foldl_patch (f := QueueItem.envelope) (fun _ _ => rfl) _ _) (blob_ne_nil _)
    (shareKey_ctrng (QueueItem.foldl_patch (f := QueueItem.backend) (fun _ _ => rfl) _ _)
      (QueueItem.foldl_patch (f := QueueItem.ctrngKeyB64) (fun _ _ => rfl) _ _) hne)
    (fun h => hne (Option.some.inj h))
    ((QueueItem.foldl_patch (f := QueueItem.createdAt) (fun _ _ => rfl) _ _).trans
      (congrArg JsValue.num hnow))
  have henvelope := QueueItem.foldl_patch (f := QueueItem.envelope) (fun _ _ => rfl)
  refine ⟨sealed, url, _, _, hsealed, hurl, hparse,
    buildItemFromImport_ctrng _ ((congrArg peekBackend (henvelope _ _)).trans peekBackend_packCtrng)
      ((congrArg unpackCtrng (henvelope _ _)).trans unpackCtrng_packCtrng),
    henvelope _ _, rfl, rfl, hunlock, rfl, ?_⟩
  refine ⟨_, bytesToB64 sealed.key, (congrArg unpackCtrng (henvelope _ _)).trans
    unpackCtrng_packCtrng, rfl, b64ToBytes_bytesToB64 _, rfl, rfl, ?_⟩
  rw [hsealedKey, hsealedIv, hunlock]
  exact verifyCommitment_commitment hcommit

/-- **The link of a sealed item carries all it takes to open it**, if its target sequence is a number
of JSON and the clock is not before 1970. -/
theorem reopens_sealCtrng
    (h : sealCtrng A message unlockUnix recipientEns senderEns reply keyBytes iv id now = .ok item)
    (htarget : ∀ x, targetSequence unlockUnix reply = some x → x.isFinite = true)
    (hnow : 0 ≤ now.ms) (patches : List Patch)
    (hens : nonEmpty (patches.foldl QueueItem.patch item).capsuleEns = none)
    (location : Location) (now' : TimeValue) (id' : JsString) :
    ∃ sealed, symSeal A keyBytes iv message unlockUnix = .ok sealed ∧
      Reopens location (patches.foldl QueueItem.patch item) sealed now' id' := by
  obtain ⟨x, m, hx, hm, hlt⟩ := secondsOf_whole hnow
  obtain ⟨hdigits, hparse⟩ := parseInt_toString hm hlt
  obtain ⟨sealed, url, imp, reopened, hsealed, hurl, himp, hbuild, henvelope, hkey, hcreated,
    hunlock, hseq, hopens⟩ := link_sealCtrng h hx hens location now' id'
  have hitem : item.createdAt = .num (.fin x) ∧
      propJson item.ctrngTargetSequence = item.ctrngTargetSequence := by
    obtain ⟨htime, hseq, -⟩ := sealCtrng_fields h
    rw [htime, hseq, hx]
    refine ⟨rfl, ?_⟩
    cases ht : targetSequence unlockUnix reply with
    | none => rfl
    | some y => simp [optionalNumber, propJson, isUndefined, asJson, htarget y ht]
  rw [hdigits, if_pos rfl, hparse] at hcreated
  refine ⟨sealed, hsealed, url, imp, reopened, hurl, himp, hbuild, ?_, ?_, ?_, ?_, ?_, hopens⟩
  · exact henvelope.trans (QueueItem.foldl_patch (fun _ _ => rfl) _ _).symm
  · rw [hcreated, ← hitem.1]
    exact (QueueItem.foldl_patch (f := QueueItem.createdAt) (fun _ _ => rfl) _ _).symm
  · exact hkey.trans (QueueItem.foldl_patch (fun _ _ => rfl) _ _).symm
  · exact hunlock.trans (QueueItem.foldl_patch (fun _ _ => rfl) _ _).symm
  · rw [hseq, hitem.2]
    exact (QueueItem.foldl_patch (f := QueueItem.ctrngTargetSequence) (fun _ _ => rfl) _ _).symm

/-- A key that imports and a finite unlock time are all that sealing takes. -/
theorem sealCtrng_isOk (A : AesGcm) (message : JsString) (x : Binary64.Double)
    (recipientEns senderEns : Option JsString) (reply : JsString → Reply) (iv : List UInt8)
    (id : JsString) (now : TimeValue) (hkey : importsKey keyBytes = true) :
    ∃ item, sealCtrng A message (.fin x) recipientEns senderEns reply keyBytes iv id now =
      .ok item := by
  unfold sealCtrng symSeal
  rw [hkey]
  exact ⟨_, rfl⟩

/-- What a link is parsed to and what is built from it decides what reopens. -/
theorem reopens_inv {location : Location} {sealed : SymSealed} {id' url : JsString}
    {imp : ImportedItem} {reopened : QueueItem} (h : Reopens location item sealed now id')
    (hurl : buildShareUrl location item = .ok url) (himp : parseFragment (hashOf url) now = some imp)
    (hbuild : buildItemFromImport imp id' = .ok reopened) :
    .num imp.createdAt = item.createdAt ∧
      reopened.ctrngTargetSequence = item.ctrngTargetSequence := by
  obtain ⟨url', imp', reopened', hurl', himp', hbuild', -, hcreated, -, -, htarget, -⟩ := h
  rw [hurl] at hurl'
  cases hurl'
  rw [himp] at himp'
  cases himp'
  rw [hbuild] at hbuild'
  cases hbuild'
  exact ⟨hcreated, htarget⟩

end

/-- The key stream of AES-GCM under the key and the iv of zeros, in its first block. -/
def zeroStream : List UInt8 :=
  [0xCE, 0xA7, 0x40, 0x3D, 0x4D, 0x60, 0x6B, 0x6E, 0x07, 0x4E, 0xC5, 0xD3, 0xBA, 0xF3, 0x9D, 0x18]

def zeroMask (bs : List UInt8) : List UInt8 := bs.mapIdx fun i b => b ^^^ zeroStream.getD i 0

/-- The tags of `hi` and of the empty message. -/
def zeroTag (plaintext : List UInt8) : List UInt8 :=
  if plaintext = utf8 (js "hi") then
    [0xAD, 0x14, 0x5C, 0xEF, 0x3E, 0x9E, 0xEB, 0x28, 0xF8, 0xDA, 0x02, 0x39, 0xAE, 0xF5, 0x38, 0xE5]
  else
    [0x53, 0x0F, 0x8A, 0xFB, 0xC7, 0x45, 0x36, 0xB9, 0xA9, 0x63, 0xB4, 0xF1, 0xC4, 0xCB, 0x73, 0x8B]

theorem zeroTag_length (plaintext : List UInt8) : (zeroTag plaintext).length = 16 := by
  unfold zeroTag
  split <;> rfl

theorem zeroMask_zeroMask (bs : List UInt8) : zeroMask (zeroMask bs) = bs := by
  apply List.ext_getElem
  · simp [zeroMask]
  · intro i h h'
    simp [zeroMask, UInt8.xor_assoc]

/-- AES-GCM as it is for `hi` and for the empty message under the key and the iv of zeros. -/
def zeroVector : AesGcm where
  encrypt _ _ plaintext := zeroMask plaintext ++ zeroTag plaintext
  decrypt _ _ ct :=
    let plaintext := zeroMask (ct.take (ct.length - 16))
    if ct.drop (ct.length - 16) = zeroTag plaintext then some plaintext else none
  decrypt_encrypt _ _ plaintext := by
    have hlen : (zeroMask plaintext ++ zeroTag plaintext).length - 16 = (zeroMask plaintext).length := by
      rw [List.length_append, zeroTag_length, Nat.add_sub_cancel]
    simp only [hlen, List.take_left, List.drop_left, zeroMask_zeroMask, if_true]

/-- Every gateway replies with this text. -/
def replies (body : JsString) : JsString → Reply := fun _ => .response 200 body

theorem reopens_zeroVector :
    ∃ item, sealCtrng zeroVector (js "hi") (ofRat 5) none none
        (replies (js "\x7b\"data\":\x7b\"sequence\":7,\"timestamp\":0,\"ctrng\":[]\x7d\x7d"))
        (List.replicate 32 0) (List.replicate 12 0) (js "a") ⟨1000, by decide⟩ = .ok item ∧
      ∃ sealed, symSeal zeroVector (List.replicate 32 0) (List.replicate 12 0) (js "hi") (ofRat 5) =
          .ok sealed ∧
        Reopens ⟨js "https://localhost/", by decide⟩ item sealed ⟨2000, by decide⟩ (js "b") := by
  have hunlock : ofRat 5 = .fin ⟨5, by decide +kernel⟩ := by decide +kernel
  have hseq : targetSequence (ofRat 5) (replies
      (js "\x7b\"data\":\x7b\"sequence\":7,\"timestamp\":0,\"ctrng\":[]\x7d\x7d")) =
        some (ofRat 8) := by decide +kernel
  have hfin : (ofRat 8).isFinite = true := by decide +kernel
  rw [hunlock] at hseq ⊢
  have hkey : importsKey (List.replicate 32 0) = true := by decide
  obtain ⟨item, hitem⟩ := sealCtrng_isOk zeroVector (js "hi") ⟨5, by decide +kernel⟩ none none
    (replies (js "\x7b\"data\":\x7b\"sequence\":7,\"timestamp\":0,\"ctrng\":[]\x7d\x7d"))
    (List.replicate 12 0) (js "a") ⟨1000, by decide⟩ hkey
  refine ⟨item, hitem, reopens_sealCtrng hitem ?_ (by decide) [] ?_ _ _ _⟩
  · intro x hx
    rw [hseq] at hx
    cases hx
    exact hfin
  · rw [List.foldl_nil, (sealCtrng_fields hitem).2.2]
    rfl

/-- A sequence of `1e999` is `Infinity`, which JSON writes as `null`, and the seconds of a clock before
1970 are not all digits. -/
theorem sealCtrng_not_reopens :
    (∃ item, sealCtrng zeroVector [] (ofRat 0) none none
        (replies (js "\x7b\"data\":\x7b\"sequence\":1e999,\"timestamp\":0,\"ctrng\":[]\x7d\x7d"))
        (List.replicate 32 0) (List.replicate 12 0) (js "a") ⟨1000, by decide⟩ = .ok item ∧
      ∀ sealed, ¬ Reopens ⟨js "https://localhost/", by decide⟩ item sealed ⟨2000, by decide⟩
        (js "b")) ∧
    ∃ item, sealCtrng zeroVector [] (ofRat 0) none none (fun _ => .failed)
        (List.replicate 32 0) (List.replicate 12 0) (js "a") ⟨-1, by decide⟩ = .ok item ∧
      ∀ sealed, ¬ Reopens ⟨js "https://localhost/", by decide⟩ item sealed ⟨2000, by decide⟩
        (js "b") := by
  have hunlock : ofRat 0 = .fin ⟨0, by decide +kernel⟩ := by decide +kernel
  have hpublished : ∀ {reply now item}, sealCtrng zeroVector [] (ofRat 0) none none reply
      (List.replicate 32 0) (List.replicate 12 0) (js "a") now = .ok item →
        nonEmpty (([] : List Patch).foldl QueueItem.patch item).capsuleEns = none := by
    intro reply now item h
    rw [List.foldl_nil, (sealCtrng_fields h).2.2]
    rfl
  have hok : ∀ reply now, ∃ item, sealCtrng zeroVector [] (ofRat 0) none none reply
      (List.replicate 32 0) (List.replicate 12 0) (js "a") now = .ok item := by
    intro reply now
    rw [hunlock]
    exact sealCtrng_isOk _ _ _ _ _ _ _ _ _ (by decide)
  constructor
  · have hseq : targetSequence (ofRat 0) (replies
        (js "\x7b\"data\":\x7b\"sequence\":1e999,\"timestamp\":0,\"ctrng\":[]\x7d\x7d")) =
          some (.infinity false) := by decide +kernel
    have hnow : secondsOf ⟨1000, by decide⟩ = .fin ⟨1, by decide +kernel⟩ := by decide +kernel
    obtain ⟨item, hitem⟩ := hok (replies
      (js "\x7b\"data\":\x7b\"sequence\":1e999,\"timestamp\":0,\"ctrng\":[]\x7d\x7d"))
      ⟨1000, by decide⟩
    refine ⟨item, hitem, fun sealed h => ?_⟩
    obtain ⟨-, url, imp, reopened, -, hurl, himp, hbuild, -, -, -, -, hnull, -⟩ :=
      link_sealCtrng hitem hnow (hpublished hitem) ⟨js "https://localhost/", by decide⟩
        ⟨2000, by decide⟩ (js "b")
    have heq := (reopens_inv h hurl himp hbuild).2
    rw [hnull, (sealCtrng_fields hitem).2.1, hseq] at heq
    cases heq
  · have hnow : secondsOf ⟨-1, by decide⟩ = .fin ⟨-1, by decide +kernel⟩ := by decide +kernel
    have hsign : isDigits (Js.toString (.fin ⟨-1, by decide +kernel⟩)) = false := by decide +kernel
    have hlater : secondsOf ⟨2000, by decide⟩ = .fin ⟨2, by decide +kernel⟩ := by decide +kernel
    obtain ⟨item, hitem⟩ := hok (fun _ => .failed) ⟨-1, by decide⟩
    refine ⟨item, hitem, fun sealed h => ?_⟩
    obtain ⟨-, url, imp, reopened, -, hurl, himp, hbuild, -, -, hcreated, -⟩ :=
      link_sealCtrng hitem hnow (hpublished hitem) ⟨js "https://localhost/", by decide⟩
        ⟨2000, by decide⟩ (js "b")
    have heq := (reopens_inv h hurl himp hbuild).1
    rw [hcreated, hsign, hlater, (sealCtrng_fields hitem).1, hnow] at heq
    have hnum := JsValue.num.inj heq
    revert hnum
    decide +kernel

end SealedSky.Web.App
