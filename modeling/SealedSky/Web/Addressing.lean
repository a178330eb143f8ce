import SealedSky.Web.Import
import SealedSky.Web.Sealing

/-!
# Links and addressing (`sealed-sky-web/README.md:30`, `src/lib/share.ts:90`, `src/App.tsx:93`)

An envelope carries the names of its sender and its recipient, and a reopen link is to pass them through.
The importer reads neither of them.

* `carried_iff` — the item of a link is the sealed one exactly when there are no names, the time of
  sealing prints as digits or has not changed, and the round or target sequence is a number of JSON.
-/
namespace SealedSky.Web

open Js Fallible

/-- What a recipient is to see of an item as its sender does. -/
structure Header where
  backend : Backend
  envelope : JsString
  round : JsValue
  targetSequence : JsValue
  unlockUnix : JsValue
  createdAt : JsValue
  key : Option JsString
  senderEns : Option JsString
  recipientEns : Option JsString

def QueueItem.header (it : QueueItem) : Header :=
  ⟨it.backend, it.envelope, it.round, it.ctrngTargetSequence, it.unlockUnix, it.createdAt,
    it.ctrngKeyB64, it.senderEns, it.recipientEns⟩

theorem QueueItem.patch_header (it : QueueItem) (p : Patch) : (it.patch p).header = it.header := rfl

namespace App

/-- What `sealDrand` and `sealCtrng` make at a time, for two names. The unlock time of a drand item is
that of its round. -/
inductive SealedItem (A : AesGcm) (timeAt : JsValue → Result JsValue) (now : TimeValue)
    (senderEns recipientEns : Option JsString) : QueueItem → Prop where
  | drand {round actualUnlock : JsNum} {ct : List UInt8} {id : JsString}
      (htime : timeAt (.num round) = .ok (.num actualUnlock)) :
      SealedItem A timeAt now senderEns recipientEns
        (sealDrand round actualUnlock ct recipientEns senderEns id now)
  | ctrng {message : JsString} {unlockUnix : JsNum} {reply : JsString → Reply}
      {keyBytes iv : List UInt8} {id : JsString} {item : QueueItem}
      (h : sealCtrng A message unlockUnix recipientEns senderEns reply keyBytes iv id now = .ok item) :
      SealedItem A timeAt now senderEns recipientEns item

/-- The link of an item is imported as an item that looks the same. -/
def Carried (location : Location) (item : QueueItem) (timeAt : JsValue → Result JsValue)
    (now' : TimeValue) (id' : JsString) : Prop :=
  ∃ url imp reopened, buildShareUrl location item = .ok url ∧
    parseFragment (hashOf url) now' = some imp ∧ finalise imp none timeAt id' = .ok reopened ∧
    reopened.header = item.header

/-- The seconds of a clock from 1970 on are in the link; others are replaced by those of the import. -/
def TimeCarried (now now' : TimeValue) : Prop := 0 ≤ now.ms ∨ secondsOf now' = secondsOf now

/-! ## The time in a link -/

theorem toString_neg {x : Binary64.Double} (h : x.val < 0) :
    isDigits (Js.toString (.fin x)) = false := by
  rw [Js.toString, if_neg h.ne, if_pos h]
  rfl

/-- The time that is read from a link. -/
theorem timeCarried_iff (now now' : TimeValue) : ∃ x, secondsOf now = .fin x ∧
    ((if isDigits (Js.toString (.fin x)) then parseInt (Js.toString (.fin x)) else secondsOf now') =
      secondsOf now ↔ TimeCarried now now') := by
  by_cases h : 0 ≤ now.ms
  · obtain ⟨x, m, hx, hm, hlt⟩ := secondsOf_whole h
    obtain ⟨hdigits, hparse⟩ := parseInt_toString hm hlt
    refine ⟨x, hx, ?_⟩
    rw [hdigits, if_pos rfl, hparse, hx]
    exact iff_of_true rfl (Or.inl h)
  · obtain ⟨x, hx, hneg⟩ := secondsOf_before (not_le.1 h)
    refine ⟨x, hx, ?_⟩
    rw [toString_neg hneg]
    exact ⟨Or.inr, fun h' => h'.resolve_left h⟩

/-! ## The item of a link -/

theorem carried_of_link {location : Location} {item : QueueItem}
    {timeAt : JsValue → Result JsValue} {now' : TimeValue} {id' url : JsString} {imp : ImportedItem}
    (hurl : buildShareUrl location item = .ok url)
    (himp : parseFragment (hashOf url) now' = some imp) :
    Carried location item timeAt now' id' ↔
      ∃ reopened, finalise imp none timeAt id' = .ok reopened ∧ reopened.header = item.header := by
  constructor
  · rintro ⟨url', imp', reopened, hurl', himp', hfinal, hheader⟩
    rw [hurl] at hurl'
    cases hurl'
    rw [himp] at himp'
    cases himp'
    exact ⟨reopened, hfinal, hheader⟩
  · rintro ⟨reopened, hfinal, hheader⟩
    exact ⟨url, imp, reopened, hurl, himp, hfinal, hheader⟩

theorem asJson_num_eq_iff {x : JsNum} : asJson (.num x) = .num x ↔ x.isFinite = true := by
  rw [asJson]
  cases x.isFinite <;> simp

theorem finalise_drand {imp : ImportedItem} {capsuleEns : Option JsString}
    {timeAt : JsValue → Result JsValue} {id' : JsString} {round : JsNum} {ct : List UInt8}
    {payload : JsValue} (hbackend : peekBackend imp.envelope = .ok .drand)
    (hunpack : unpack imp.envelope = .ok ⟨asJson (.num round), ct, payload⟩) :
    finalise imp capsuleEns timeAt id' = timeAt (asJson (.num round)) >>= fun unlockUnix => .ok
      { id := id', backend := .drand, envelope := imp.envelope, round := asJson (.num round)
        unlockUnix, createdAt := .num imp.createdAt, status := .sealed, capsuleEns } := by
  have hround : isUndefined (asJson (.num round)) = false := by
    rw [asJson]
    split <;> rfl
  unfold finalise
  rw [buildItemFromImport_drand id' hbackend hunpack]
  simp only [ok_bind, importedUnlock, hround, and_self, if_true]

theorem finalise_ctrng {imp : ImportedItem} {capsuleEns : Option JsString}
    {timeAt : JsValue → Result JsValue} {id' : JsString} {parsed : ParsedCtrngEnvelope}
    (hbackend : peekBackend imp.envelope = .ok .ctrng)
    (hunpack : unpackCtrng imp.envelope = .ok parsed) :
    finalise imp capsuleEns timeAt id' = .ok
      { id := id', backend := .ctrng, envelope := imp.envelope, unlockUnix := parsed.unlockUnix
        ctrngTargetSequence := parsed.targetSequence, ctrngKeyB64 := imp.ctrngKeyB64
        createdAt := .num imp.createdAt, status := .sealed, capsuleEns } := by
  unfold finalise
  rw [buildItemFromImport_ctrng id' hbackend hunpack]
  rfl

/-- What the link of an item is parsed to. -/
theorem link_imported {it : QueueItem} {bs : List UInt8} {key : Option (List UInt8)}
    (location : Location) (now now' : TimeValue) (hens : nonEmpty it.capsuleEns = none)
    (henvelope : it.envelope = btoa bs) (hbs : bs ≠ []) (hshare : shareKey it = key.map btoa)
    (hkey : key ≠ some []) (hcreated : it.createdAt = .num (secondsOf now)) :
    ∃ url imp, buildShareUrl location it = .ok url ∧ parseFragment (hashOf url) now' = some imp ∧
      imp.envelope = it.envelope ∧ imp.ctrngKeyB64 = key.map btoa ∧
      (imp.createdAt = secondsOf now ↔ TimeCarried now now') := by
  obtain ⟨x, hx, hcarried⟩ := timeCarried_iff now now'
  rw [hx] at hcreated
  obtain ⟨url, hurl, himp⟩ :=
    parseFragment_buildShareUrl location now' hens henvelope hbs hshare hkey hcreated
  exact ⟨url, _, hurl, himp, rfl, rfl, hcarried⟩

section
variable {A : AesGcm} {timeAt : JsValue → Result JsValue} {now now' : TimeValue}
  {senderEns recipientEns : Option JsString} {item it : QueueItem} {location : Location}
  {id' : JsString}

/-- What is imported of a drand item, also of one that was updated since it was sealed. -/
theorem finalise_header_drand {imp : ImportedItem} {capsuleEns : Option JsString}
    {round actualUnlock : JsNum} {ct : List UInt8} {id : JsString}
    (htime : timeAt (.num round) = .ok (.num actualUnlock))
    (hitem : it.header = (sealDrand round actualUnlock ct recipientEns senderEns id now).header)
    (henv : imp.envelope = it.envelope) :
    (∃ reopened, finalise imp capsuleEns timeAt id' = .ok reopened ∧
        reopened.header = it.header) ↔
      senderEns = none ∧ recipientEns = none ∧ imp.createdAt = secondsOf now ∧
        round.isFinite = true := by
  have henvelope : it.envelope =
      encodeBlob (.obj (drandPayload round ct senderEns recipientEns)) :=
    congrArg Header.envelope hitem
  rw [henvelope] at henv
  obtain ⟨hunpack, hpeek, -⟩ := unpack_drandPayload (decodeBlob_encodeBlob
    (drandPayload round ct senderEns recipientEns))
  rw [← henv] at hunpack hpeek
  rw [finalise_drand hpeek hunpack, hitem]
  constructor
  · rintro ⟨reopened, hfinal, hheader⟩
    obtain ⟨unlockUnix, -, heq⟩ := bind_eq_ok.1 hfinal
    cases heq
    exact ⟨(congrArg Header.senderEns hheader).symm, (congrArg Header.recipientEns hheader).symm,
      JsValue.num.inj (congrArg Header.createdAt hheader),
      asJson_num_eq_iff.1 (congrArg Header.round hheader)⟩
  · rintro ⟨rfl, rfl, hcreated, hfin⟩
    rw [asJson_num_eq_iff.2 hfin, htime]
    refine ⟨_, rfl, ?_⟩
    simp only [QueueItem.header, sealDrand, hcreated, henv]
    rfl

/-- What is imported of a cTRNG item. -/
theorem finalise_header_ctrng {imp : ImportedItem} {capsuleEns : Option JsString}
    {message : JsString} {unlockUnix : JsNum} {reply : JsString → Reply} {keyBytes iv : List UInt8}
    {id : JsString}
    (h : sealCtrng A message unlockUnix recipientEns senderEns reply keyBytes iv id now = .ok item)
    (hitem : it.header = item.header) (henv : imp.envelope = it.envelope)
    (hkey : imp.ctrngKeyB64 = it.ctrngKeyB64) :
    (∃ reopened, finalise imp capsuleEns timeAt id' = .ok reopened ∧
        reopened.header = it.header) ↔
      senderEns = none ∧ recipientEns = none ∧ imp.createdAt = secondsOf now ∧
        ∀ x, targetSequence unlockUnix reply = some x → x.isFinite = true := by
  obtain ⟨sealed, hsealed, rfl⟩ := sealCtrng_cases h
  obtain ⟨-, -, -, hcommit⟩ := symSeal_cases hsealed
  obtain ⟨_, hnum, hfin⟩ := commitment_finite hcommit
  cases hnum
  have henvelope : it.envelope = encodeBlob (.obj (ctrngPayload unlockUnix
      (targetSequence unlockUnix reply) sealed.ct sealed.iv sealed.commit senderEns recipientEns)) :=
    congrArg Header.envelope hitem
  have hkeyB64 : it.ctrngKeyB64 = some (bytesToB64 sealed.key) := congrArg Header.key hitem
  rw [hkeyB64] at hkey
  rw [henvelope] at henv
  have hpeek : peekBackend imp.envelope = .ok .ctrng := henv ▸ peekBackend_packCtrng
  have hunpack : unpackCtrng imp.envelope = _ :=
    (congrArg unpackCtrng henv).trans unpackCtrng_packCtrng
  rw [finalise_ctrng hpeek hunpack, hitem]
  have htarget : propJson (optionalNumber (targetSequence unlockUnix reply)) =
      optionalNumber (targetSequence unlockUnix reply) ↔
        ∀ x, targetSequence unlockUnix reply = some x → x.isFinite = true := by
    cases targetSequence unlockUnix reply with
    | none => exact iff_of_true rfl fun _ h => by cases h
    | some y =>
      have hprop : propJson (.num y) = asJson (.num y) := rfl
      rw [optionalNumber, hprop, asJson_num_eq_iff]
      exact ⟨fun hfin x hx => Option.some.inj hx ▸ hfin, fun h => h y rfl⟩
  constructor
  · rintro ⟨reopened, hfinal, hheader⟩
    cases hfinal
    exact ⟨(congrArg Header.senderEns hheader).symm, (congrArg Header.recipientEns hheader).symm,
      JsValue.num.inj (congrArg Header.createdAt hheader),
      htarget.1 (congrArg Header.targetSequence hheader)⟩
  · rintro ⟨rfl, rfl, hcreated, hsequence⟩
    refine ⟨_, rfl, ?_⟩
    simp only [QueueItem.header, hcreated, htarget.2 hsequence, asJson_num_eq_iff.2 hfin, henv, hkey]
    rfl

/-- The link of a drand item. -/
theorem carried_drand_iff {round actualUnlock : JsNum} {ct : List UInt8} {id : JsString}
    (htime : timeAt (.num round) = .ok (.num actualUnlock))
    (hitem : it.header = (sealDrand round actualUnlock ct recipientEns senderEns id now).header)
    (hens : nonEmpty it.capsuleEns = none) :
    Carried location it timeAt now' id' ↔ senderEns = none ∧ recipientEns = none ∧
      TimeCarried now now' ∧ round.isFinite = true := by
  have hbackend : it.backend = .drand := congrArg Header.backend hitem
  have hshare : shareKey it = (none : Option (List UInt8)).map btoa := by
    rw [shareKey, hbackend]
    rfl
  obtain ⟨url, imp, hurl, himp, henv, -, hcreated⟩ := link_imported location now now' hens
    (congrArg Header.envelope hitem : it.envelope = encodeBlob (.obj _)) (blob_ne_nil _) hshare
    (fun h => by cases h) (congrArg Header.createdAt hitem)
  rw [carried_of_link hurl himp, finalise_header_drand htime hitem henv, hcreated]

/-- The link of a cTRNG item. -/
theorem carried_ctrng_iff {message : JsString} {unlockUnix : JsNum} {reply : JsString → Reply}
    {keyBytes iv : List UInt8} {id : JsString}
    (h : sealCtrng A message unlockUnix recipientEns senderEns reply keyBytes iv id now = .ok item)
    (hitem : it.header = item.header) (hens : nonEmpty it.capsuleEns = none) :
    Carried location it timeAt now' id' ↔ senderEns = none ∧ recipientEns = none ∧
      TimeCarried now now' ∧ ∀ x, targetSequence unlockUnix reply = some x → x.isFinite = true := by
  obtain ⟨sealed, hsealed, rfl⟩ := sealCtrng_cases h
  obtain ⟨hkey, hsealedKey, -, -⟩ := symSeal_cases hsealed
  have hne : sealed.key ≠ [] := hsealedKey.symm ▸ hkey
  obtain ⟨url, imp, hurl, himp, henv, hkeyB64, hcreated⟩ := link_imported location now now' hens
    (congrArg Header.envelope hitem : it.envelope = encodeBlob (.obj _)) (blob_ne_nil _)
    (shareKey_ctrng (congrArg Header.backend hitem) (congrArg Header.key hitem) hne)
    (fun h => hne (Option.some.inj h)) (congrArg Header.createdAt hitem)
  have hsame : imp.ctrngKeyB64 = it.ctrngKeyB64 := hkeyB64.trans (congrArg Header.key hitem).symm
  rw [carried_of_link hurl himp, finalise_header_ctrng h hitem henv hsame, hcreated]

/-- A drand item has a round and no target sequence. -/
theorem drand_numbers_iff {round actualUnlock : JsNum} {ct : List UInt8} {id : JsString} :
    (∀ x, (sealDrand round actualUnlock ct recipientEns senderEns id now).round = .num x ∨
        (sealDrand round actualUnlock ct recipientEns senderEns id now).ctrngTargetSequence = .num x →
          x.isFinite = true) ↔ round.isFinite = true := by
  constructor
  · exact fun h => h round (Or.inl rfl)
  · rintro hfin x (hx | hx)
    · cases hx
      exact hfin
    · cases hx

/-- A cTRNG item has no round, and a target sequence where a beacon was there. -/
theorem ctrng_numbers_iff {message : JsString} {unlockUnix : JsNum} {reply : JsString → Reply}
    {keyBytes iv : List UInt8} {id : JsString} {item : QueueItem}
    (h : sealCtrng A message unlockUnix recipientEns senderEns reply keyBytes iv id now = .ok item) :
    (∀ x, item.round = .num x ∨ item.ctrngTargetSequence = .num x → x.isFinite = true) ↔
      ∀ x, targetSequence unlockUnix reply = some x → x.isFinite = true := by
  obtain ⟨sealed, -, rfl⟩ := sealCtrng_cases h
  cases targetSequence unlockUnix reply with
  | none =>
    refine iff_of_true ?_ fun _ hx => by cases hx
    rintro x (hx | hx) <;> cases hx
  | some y =>
    constructor
    · exact fun h x hx => h x (Or.inr (congrArg JsValue.num (Option.some.inj hx)))
    · rintro h x (hx | hx)
      · cases hx
      · exact h x (congrArg some (JsValue.num.inj hx))

/-- **The item of a link is the sealed one** exactly when neither name was given, the time of sealing is
carried over, and the round or the target sequence is a number that JSON has. -/
theorem carried_iff (h : SealedItem A timeAt now senderEns recipientEns item) (patches : List Patch)
    (hens : nonEmpty (patches.foldl QueueItem.patch item).capsuleEns = none) (location : Location)
    (now' : TimeValue) (id' : JsString) :
    Carried location (patches.foldl QueueItem.patch item) timeAt now' id' ↔
      senderEns = none ∧ recipientEns = none ∧ TimeCarried now now' ∧
        ∀ x, item.round = .num x ∨ item.ctrngTargetSequence = .num x → x.isFinite = true := by
  have hitem := QueueItem.foldl_patch QueueItem.patch_header item patches
  cases h with
  | @drand round actualUnlock ct id htime =>
    exact (carried_drand_iff htime hitem hens).trans
      (and_congr_right' (and_congr_right' (and_congr_right' drand_numbers_iff.symm)))
  | @ctrng message unlockUnix reply keyBytes iv id _ h =>
    exact (carried_ctrng_iff h hitem hens).trans
      (and_congr_right' (and_congr_right' (and_congr_right' (ctrng_numbers_iff h).symm)))

end

/-- Chain info by which every round is out in second 9. -/
def sampleTime (_ : JsValue) : Result JsValue := .ok (.num (ofRat 9))

/-- A capsule for round 5, sealed in second 1. -/
def sampleItem (senderEns : Option JsString) : QueueItem :=
  sealDrand (ofRat 5) (ofRat 9) [7] none senderEns (js "a") ⟨1000, by decide⟩

theorem sampleTime_round : sampleTime (.num (ofRat 5)) = .ok (.num (ofRat 9)) := rfl

theorem carried_nameless : Carried ⟨js "https://localhost/", by decide⟩ (sampleItem none) sampleTime
    ⟨86400000, by decide⟩ (js "b") := by
  have hitem : SealedItem zeroVector sampleTime ⟨1000, by decide⟩ none none (sampleItem none) :=
    .drand sampleTime_round
  refine (carried_iff hitem [] rfl _ _ _).2 ⟨rfl, rfl, Or.inl (by decide), ?_⟩
  rintro x (hx | hx)
  · cases hx
    decide +kernel
  · cases hx

/-- The name of the sender is in the envelope, but not in the item of the link. -/
theorem sender_not_carried : SealedItem zeroVector sampleTime ⟨1000, by decide⟩
      (some (js "alice.eth")) none (sampleItem (some (js "alice.eth"))) ∧
    ¬ Carried ⟨js "https://localhost/", by decide⟩ (sampleItem (some (js "alice.eth"))) sampleTime
      ⟨86400000, by decide⟩ (js "b") := by
  have hitem : (sampleItem (some (js "alice.eth"))).header = (sealDrand (ofRat 5) (ofRat 9) [7] none
    (some (js "alice.eth")) (js "a") ⟨1000, by decide⟩).header := rfl
  refine ⟨.drand sampleTime_round, fun h => ?_⟩
  have hnone := ((carried_drand_iff sampleTime_round hitem rfl).1 h).1
  cases hnone

end App

end SealedSky.Web
