import SealedSky.Web.Binding
import SealedSky.Web.Fidelity
import SealedSky.Web.Reveal

/-!
# What a capsule shows (`sealed-sky-web/src/App.tsx:205-320`, `src/lib/symmetric.ts`)

A sealed capsule travels as an envelope and a key: in the queue that it was sealed in, in a link, under
an ENS name. Whoever has the envelope imports it under some key, and from then on the item is subject to
any interleaving of ticks, clicks, reloads and other attempts.

* `opensTo_sealCtrng` — the envelope and the key of a capsule pass every check of an attempt and give
  its message.
* `run_shows_message` — in no run does an item with the envelope show anything but the message, nor
  before a block that is not earlier than the unlock time, nor under another key.
-/
namespace SealedSky.Web.App

open Js Fallible

/-- An envelope and a key pass the checks of an attempt, and what they open to. -/
structure OpensTo (A : AesGcm) (envelope : JsString) (key : Option JsString) (unlock : JsNum)
    (keyBytes : List UInt8) (plaintext : JsString) (parsed : ParsedCtrngEnvelope) (k : JsString) :
    Prop where
  unpacked : unpackCtrng envelope = .ok parsed
  key : key = some k
  present : nonEmpty (some k) = some k
  bytes : b64ToBytes (.str k) = .ok keyBytes
  times : parsed.unlockUnix = .num unlock
  finite : unlock.isFinite = true
  verifies : verifyCommitment parsed.commit keyBytes parsed.iv parsed.unlockUnix = .ok true
  opens : symOpen A parsed.ct parsed.iv keyBytes = .ok plaintext

section
variable {A : AesGcm} {message : JsString} {unlockUnix : JsNum}
  {recipientEns senderEns : Option JsString} {reply : JsString → Reply} {keyBytes iv : List UInt8}
  {id : JsString} {now : TimeValue} {item : QueueItem}

/-- **A sealed capsule opens to its message**, as its UTF-8 form is decoded. -/
theorem opensTo_sealCtrng
    (h : sealCtrng A message unlockUnix recipientEns senderEns reply keyBytes iv id now = .ok item) :
    ∃ parsed k, parsed.iv = iv ∧ OpensTo A item.envelope item.ctrngKeyB64 unlockUnix keyBytes
      (textDecode (utf8 message)) parsed k := by
  obtain ⟨sealed, hsealed, rfl⟩ := sealCtrng_cases h
  obtain ⟨hkey, hsealedKey, hiv, hcommit⟩ := symSeal_cases hsealed
  obtain ⟨_, hnum, hfin⟩ := commitment_finite hcommit
  cases hnum
  have hunlock : asJson (.num unlockUnix) = .num unlockUnix := by
    rw [asJson, if_pos hfin]
  have hopen := symOpen_symSeal hsealed
  rw [hsealedKey] at hopen
  refine ⟨_, bytesToB64 sealed.key, hiv, unpackCtrng_packCtrng, rfl, ?_, ?_, hunlock, hfin, ?_, hopen⟩
  · exact nonEmpty_some (btoa_ne_nil (hsealedKey ▸ hkey))
  · rw [b64ToBytes_bytesToB64, hsealedKey]
  · simp only [hunlock, hiv]
    exact verifyCommitment_commitment hcommit

/-- The whole part of an unlock time that was committed to. -/
theorem trunc_of_finite {n : JsNum} (h : n.isFinite = true) : ∃ v, bigIntTrunc n = some v := by
  cases n with
  | fin x => exact ⟨_, rfl⟩
  | nan => cases h
  | infinity neg => cases h

/-- Only the sealed key verifies, but for a collision of SHA-256. -/
theorem OpensTo.keyBytes_eq {envelope k : JsString} {key : Option JsString} {plaintext : JsString}
    {parsed : ParsedCtrngEnvelope} {kb : List UInt8}
    (h : OpensTo A envelope key unlockUnix keyBytes plaintext parsed k)
    (hverify : verifyCommitment parsed.commit kb parsed.iv parsed.unlockUnix = .ok true)
    (hhash : ∀ v, bigIntTrunc unlockUnix = some v →
      NoCollision (preimage keyBytes parsed.iv v) (preimage kb parsed.iv v)) : kb = keyBytes := by
  obtain ⟨v, hv⟩ := trunc_of_finite h.finite
  obtain ⟨commit, hcommit, hexpected⟩ := commitment_of_verifyCommitment h.verifies
  rw [h.times] at hverify hcommit
  rw [hexpected] at hverify
  obtain ⟨v', -, hparts, -⟩ := (verifyCommitment_iff hv hcommit fun v' hv' => by
    rw [hv] at hv'
    exact Option.some.inj hv' ▸ hhash v hv).1 hverify
  exact List.append_cancel_right hparts

/-! ## An attempt that is given a block -/

/-- An item that was made so shows the plaintext. -/
def ShowsText (s : State) (o : Origin) (plaintext : JsString) : Prop :=
  ∃ it ∈ s.items, it.origin = o ∧ it.plaintext = some plaintext

/-- A step of an attempt that goes on. -/
theorem step_advance {s : State} {i : ℕ} {a : Attempt} {o : Outcome} {p : Option Patch} {st : Stage}
    (ha : s.attempts[i]? = some a) (hadv : advance A a.item a.stage o = some (p, some st)) :
    ∃ t, (app A).step s (.advance i o) = some t ∧ t.attempts[i]? = some ⟨a.item, st⟩ ∧
      t.items = patchItems s.items a.item.id p := by
  refine ⟨s.afterAdvance i a o p (some st), ?_, ?_, rfl⟩
  · have hstep : (app A).step s (.advance i o) = State.step A s (.advance i o) := rfl
    rw [hstep, State.step, ha, Option.bind_eq_bind, Option.bind_some, hadv]
    rfl
  · obtain ⟨hi, -⟩ := List.getElem?_eq_some_iff.1 ha
    exact List.getElem?_set_self hi

/-- An item, patched where there is a patch. -/
def patched (it : QueueItem) (p : Option Patch) : QueueItem := p.elim it it.patch

@[simp] theorem origin_patched (it : QueueItem) (p : Option Patch) :
    (patched it p).origin = it.origin := by
  cases p <;> rfl

/-- A patch for an id finds every item with it. -/
theorem patched_mem {items : List QueueItem} {p : Option Patch} {it : QueueItem} (hit : it ∈ items) :
    patched it p ∈ patchItems items it.id p := by
  cases p with
  | none => exact hit
  | some q =>
    have hmem : (if it.id = it.id then it.patch q else it) ∈ updateItem items it.id q :=
      List.mem_map_of_mem (f := fun it' => if it'.id = it.id then it'.patch q else it') hit
    rwa [if_pos rfl] at hmem

section
variable {s : State} {i : ℕ} {a : Attempt} {it : QueueItem} {k plaintext : JsString}
  {parsed : ParsedCtrngEnvelope} {witness : BeaconBlock}

/-- From the commitment on nothing is left to fail. -/
theorem drive_opening
    (h : OpensTo A a.item.envelope a.item.ctrngKeyB64 unlockUnix keyBytes plaintext parsed k)
    (ha : s.attempts[i]? = some a) (hstage : a.stage = .opening parsed witness keyBytes)
    (hit : it ∈ s.items) (hid : it.id = a.item.id) :
    ∃ t, (app A).run s [.advance i .settled] = some t ∧ ShowsText t it.origin plaintext := by
  have hadv : advance A a.item a.stage .settled =
      some (some (toUnsealedBy plaintext witness), some .ended) := by
    rw [hstage, advance, h.opens]
  obtain ⟨t, hstep, -, hitems⟩ := step_advance ha hadv
  have hmem := patched_mem (p := some (toUnsealedBy plaintext witness)) hit
  rw [hid, ← hitems] at hmem
  exact ⟨t, (Lts.run_cons _).2 ⟨t, hstep, rfl⟩, _, hmem, origin_patched _ _, rfl⟩

theorem drive_verifying
    (h : OpensTo A a.item.envelope a.item.ctrngKeyB64 unlockUnix keyBytes plaintext parsed k)
    (ha : s.attempts[i]? = some a) (hstage : a.stage = .verifying parsed witness keyBytes)
    (hit : it ∈ s.items) (hid : it.id = a.item.id) :
    ∃ t, (app A).run s [.advance i .settled, .advance i .settled] = some t ∧
      ShowsText t it.origin plaintext := by
  have hadv : advance A a.item a.stage .settled =
      some (none, some (.opening parsed witness keyBytes)) := by
    rw [hstage, advance, h.verifies]
  obtain ⟨m, hstep, ham, hitems⟩ := step_advance ha hadv
  have hitm : it ∈ m.items := hitems ▸ hit
  obtain ⟨t, hrun, hshows⟩ :=
    drive_opening (a := ⟨a.item, .opening parsed witness keyBytes⟩) h ham rfl hitm hid
  exact ⟨t, (Lts.run_cons _).2 ⟨m, hstep, hrun⟩, hshows⟩

/-- **An attempt that is given a block from the unlock time on shows the message.** -/
theorem drive_fetching
    (h : OpensTo A a.item.envelope a.item.ctrngKeyB64 unlockUnix keyBytes plaintext parsed k)
    (ha : s.attempts[i]? = some a) (hstage : a.stage = .fetching parsed)
    (hfetch : fetchLatestBeacon reply = .ok witness)
    (hle : unlockUnix.le witness.timestamp = true) (hit : it ∈ s.items) (hid : it.id = a.item.id) :
    ∃ t, (app A).run s [.advance i (.beacon reply), .advance i .settled, .advance i .settled] =
      some t ∧ ShowsText t it.origin plaintext := by
  have hnotBefore : lessThan witness.timestamp parsed.unlockUnix = some false := by
    have hnan : unlockUnix ≠ .nan := by
      intro hnan
      have hfin := h.finite
      rw [hnan] at hfin
      cases hfin
    have hlt := (JsNum.lt_eq_false_iff (fetchLatestBeacon_not_nan hfetch).2 hnan).2 hle
    rw [lessThan, h.times, JsValue.toNumber, Option.map_some, hlt]
  have hpass : gate a.item parsed witness =
      (some toUnsealing, .verifying parsed witness keyBytes) := by
    unfold gate
    simp only [hnotBefore, h.key, optional, h.bytes]
  have hadv : advance A a.item a.stage (.beacon reply) =
      some (some toUnsealing, some (.verifying parsed witness keyBytes)) := by
    rw [hstage, advance, hfetch]
    simp only [hpass, Prod.map, id_eq]
  obtain ⟨m, hstep, ham, hitems⟩ := step_advance ha hadv
  have hmem := patched_mem (p := some toUnsealing) hit
  rw [hid, ← hitems] at hmem
  obtain ⟨t, hrun, hshows⟩ :=
    drive_verifying (a := ⟨a.item, .verifying parsed witness keyBytes⟩) h ham rfl hmem hid
  exact ⟨t, (Lts.run_cons _).2 ⟨m, hstep, hrun⟩, hshows⟩

end

/-- The actions of a user who renders and clicks, and of the attempt, at `i`, that the click starts. -/
def clickThrough (id : JsString) (i : ℕ) (reply : JsString → Reply) : List Action :=
  [.render, .click id, .advance i (.beacon reply), .advance i .settled, .advance i .settled]

/-- **A click shows the message**, where no attempt is in its way. -/
theorem drive_click {s : State} {it : QueueItem} {k plaintext : JsString}
    {parsed : ParsedCtrngEnvelope} {witness : BeaconBlock} (hinv : Inv A s)
    (h : OpensTo A it.envelope it.ctrngKeyB64 unlockUnix keyBytes plaintext parsed k)
    (hbackend : it.backend = .ctrng) (hit : it ∈ s.items) (hidle : it.id ∉ s.inFlight)
    (hfetch : fetchLatestBeacon reply = .ok witness)
    (hle : unlockUnix.le witness.timestamp = true) :
    ∃ t, (app A).run s (clickThrough it.id s.attempts.length reply) = some t ∧
      ShowsText t it.origin plaintext := by
  -- the button is that of the first item with the id, which is the same capsule
  have hfound : (s.items.find? fun x => x.id = it.id).isSome = true :=
    List.find?_isSome.2 ⟨it, hit, by simp⟩
  obtain ⟨it', hfind⟩ := Option.isSome_iff_exists.1 hfound
  have hid : it'.id = it.id := by simpa using List.find?_some hfind
  have horigin : it'.origin = it.origin :=
    hinv.unique _ (hinv.items _ (List.mem_of_find?_eq_some hfind)).known _ (hinv.items _ hit).known hid
  obtain ⟨-, hback, henvelope, hkey⟩ := Origin.mk.inj horigin
  have hstart : start it' = (none, .fetching parsed) := by
    unfold start
    simp only [hback, hbackend, hkey, h.key, h.present, henvelope, h.unpacked]
  have hclick : ({ s with view := s.items } : State).tryUnseal it' = { s with
      view := s.items
      inFlight := s.inFlight ++ [it'.id]
      attempts := s.attempts ++ [⟨it', .fetching parsed⟩] } := by
    have hfree : s.inFlight.contains it'.id = false := by
      rw [List.contains_eq_mem, hid]
      exact decide_eq_false hidle
    simp only [State.tryUnseal, hfree, hstart, patchItems, Bool.false_eq_true, if_false]
  have hlast : (s.attempts ++ [⟨it', .fetching parsed⟩])[s.attempts.length]? =
      some ⟨it', .fetching parsed⟩ := List.getElem?_concat_length
  rw [← henvelope, ← hkey] at h
  obtain ⟨t, hrun, hshows⟩ := drive_fetching (s := ({ s with
      view := s.items
      inFlight := s.inFlight ++ [it'.id]
      attempts := s.attempts ++ [⟨it', .fetching parsed⟩] } : State))
    (i := s.attempts.length) h hlast rfl hfetch hle hit hid.symm
  refine ⟨t, (Lts.run_cons _).2 ⟨{ s with view := s.items }, rfl, (Lts.run_cons _).2 ⟨_, ?_, hrun⟩⟩,
    hshows⟩
  simp only [app, State.step, hfind, hclick]

/-! ## In every run -/

/-- **What an item with the envelope of a capsule shows.** -/
theorem run_shows_message {as : List Action} {s : State} {it : QueueItem} {plaintext : JsString}
    (h : sealCtrng A message unlockUnix recipientEns senderEns reply keyBytes iv id now = .ok item)
    (hrun : (app A).run (app A).init as = some s) (hit : it ∈ s.items)
    (hbackend : it.backend = .ctrng) (henvelope : it.envelope = item.envelope)
    (hplain : it.plaintext = some plaintext)
    (hhash : ∀ k kb v, it.ctrngKeyB64 = some k → b64ToBytes (.str k) = .ok kb →
      bigIntTrunc unlockUnix = some v → NoCollision (preimage keyBytes iv v) (preimage kb iv v)) :
    plaintext = textDecode (utf8 message) ∧
      (plaintext = message ↔ WellFormed message ∧ message.head? ≠ some 0xFEFF) ∧
      (∃ k, it.ctrngKeyB64 = some k ∧ b64ToBytes (.str k) = .ok keyBytes) ∧
      ∃ witness, (it.id, witness) ∈ s.fetched ∧ unlockUnix.le witness.timestamp = true := by
  have hstep : ∀ s a t, Inv A s → (app A).step s a = some t → Inv A t :=
    fun s a t h hstep => step_inv s a t h hstep
  have hinv : Inv A s := Lts.run_inv hstep (inv_init A) hrun
  obtain ⟨witness, hseen, hopened, -, -⟩ := (hinv.items it hit).revealed hbackend plaintext hplain
  obtain ⟨parsed, k, kb, unlock, commit, hunpack, hk, hkb, hunlock, hle, hcommit, hexpected,
    hopen⟩ := hopened
  obtain ⟨parsed', k', hiv, hopens⟩ := opensTo_sealCtrng h
  have hsame := hopens.unpacked
  rw [← henvelope, hunpack] at hsame
  cases hsame
  have hverify : verifyCommitment parsed.commit kb parsed.iv parsed.unlockUnix = .ok true := by
    rw [hexpected]
    exact verifyCommitment_commitment hcommit
  obtain rfl := hopens.keyBytes_eq hverify fun v hv => hiv.symm ▸ hhash k kb v hk hkb hv
  rw [hopens.opens] at hopen
  cases hopen
  rw [hopens.times] at hunlock
  cases hunlock
  exact ⟨rfl, textDecode_utf8_eq_iff, ⟨k, hk, hkb⟩, witness, hseen, hle⟩

/-- `hi`, sealed for the start of 1970 and opened by a block from nine seconds on. -/
theorem run_shows_message_hi :
    ∃ as s it plaintext, (app zeroVector).run (app zeroVector).init as = some s ∧ it ∈ s.items ∧
      it.plaintext = some plaintext ∧ plaintext = js "hi" ∧
      ∃ witness, (it.id, witness) ∈ s.fetched ∧ (ofRat 0).le witness.timestamp = true := by
  obtain ⟨item, hitem, hdue⟩ := run_dueRun
  obtain ⟨parsed, k, -, hopens⟩ := opensTo_sealCtrng hitem
  have hcase := (sealCtrng_cases hitem).choose_spec.2
  have hbackend : (item.patch State.toDue).backend = .ctrng := by
    have hback : item.backend = .ctrng := by rw [hcase]
    exact hback
  obtain ⟨witness, hfetch, -, hle⟩ := fetched_lateBlock
  have hinv := Lts.run_inv (P := Inv zeroVector) (fun s a t h hstep => step_inv s a t h hstep)
    (inv_init _) hdue
  have hdone : OpensTo zeroVector (item.patch State.toDue).envelope (item.patch State.toDue).ctrngKeyB64
      (ofRat 0) (List.replicate 32 0) (textDecode (utf8 (js "hi"))) parsed k := hopens
  obtain ⟨s, hrun, it, hit, horigin, hplain⟩ := drive_click hinv hdone hbackend
    (List.mem_singleton_self _) (by simp [State.init]) hfetch hle
  obtain ⟨-, hback, henvelope, hkey⟩ := Origin.mk.inj horigin
  have hall := Lts.run_trans _ hdue hrun
  obtain ⟨-, hexact, -, hwitness⟩ := run_shows_message hitem hall hit (hback.trans hbackend) henvelope
    hplain fun k' kb v hk' hkb _ => by
      have hkey : it.ctrngKeyB64 = item.ctrngKeyB64 := hkey
      have hsame : kb = List.replicate 32 0 := by
        rw [hkey, hopens.key] at hk'
        rw [← Option.some.inj hk', hopens.bytes] at hkb
        exact (Except.ok.inj hkb).symm
      rw [hsame]
      exact fun _ => rfl
  exact ⟨_, s, it, _, hall, hit, hplain,
    hexact.2 ⟨wellFormed_of_forall (by decide), by decide⟩, hwitness⟩

end

end SealedSky.Web.App
