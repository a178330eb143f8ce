import SealedSky.Backend.Server
import SealedSky.Lib.Fallible
import SealedSky.Web.Reveal

/-!
# Drand capsules (`sealed-sky-web/src/lib/tlock.ts`, `lib/drand.ts:55-71`, `App.tsx:252-270`)

The app asks for the signature of the item's round only to know that it is there: the decryption, by
`tlock-js`, fetches it again. What an attempt shows is what the decryption of the ciphertext in the
item's envelope returned to it.

* `drandDecrypt_drandEncrypt` — what is decrypted is the message, lone surrogates replaced.
* `Texts.step` — where an attempt writes only texts of a kind for its capsule, capsules show only such
  texts.
* `run_decrypted` — in every run, what a drand item shows was decrypted from its envelope, by an attempt
  for it that had been told before that drand has a signature for its round.
-/
namespace SealedSky.Web

open Js Utf8 Fallible

/-! ## `fetchRound` -/

/-- drand.ts:8. -/
def API_BASES : List JsString :=
  [js "https://api.drand.sh/" ++ CHAIN_HASH, js "https://drand.cloudflare.com/" ++ CHAIN_HASH]

/-- The body of the loop of `fetchRound`. A round that is not there yet is `null`, and ends the loop. -/
def fetchRoundFrom (round : JsValue) (reply : JsString → Reply) (base : JsString) :
    Result JsValue := do
  let text ← ofEngine round.toText
  match reply (base ++ js "/public/" ++ text) with
  | .failed => .error .engine
  | .response status body =>
    if status = 404 ∨ status = 425 then .ok .null
    else if 200 ≤ status ∧ status ≤ 299 then ofEngine (parse body)
    else .error (.error (js "HTTP " ++ toString (ofRat status)))

/-- drand.ts:55. -/
def fetchRound (reply : JsString → Reply) (round : JsValue) : Result JsValue :=
  firstOk (fetchRoundFrom round reply) (.error (js "all drand endpoints failed")) none API_BASES

/-- A signature is what the first endpoint that answers has. -/
theorem fetchRound_truthy {reply : JsString → Reply} {round : JsValue}
    (h : (fetchRound reply round).map Backend.truthy = .ok true) :
    ∃ v, Backend.truthy v = true ∧ ∃ base ∈ API_BASES, fetchRoundFrom round reply base = .ok v := by
  cases hv : fetchRound reply round with
  | error e =>
    rw [hv] at h
    cases h
  | ok v =>
    rw [hv] at h
    obtain ⟨before, base, after, hbases, hfetch, -⟩ := firstOk_eq_ok.1 hv
    refine ⟨v, Except.ok.inj h, base, ?_, hfetch⟩
    rw [hbases]
    exact List.mem_append_right _ List.mem_cons_self

/-! ## `tlock.ts` -/

/-- tlock.ts:11. -/
def binStrToBytes (s : JsString) : List UInt8 := s.map fun u => u.toUInt8

/-- tlock.ts:17. -/
def bytesToBinStr (bs : List UInt8) : JsString := bs.map fun b => b.toUInt16

/-- `Buffer.from(bs).toString("utf-8")`. Unlike `TextDecoder` it keeps a mark in front. -/
def bufferText (bs : List UInt8) : JsString := (decodeLossy bs).flatMap units

/-- `tlock-js` with the chain client of tlock.ts:9: its random bytes, and the replies that it gets, are
arguments. -/
structure Tlock where
  encrypt : List UInt8 → JsNum → List UInt8 → Option JsString
  decodeArmor : JsString → Option JsString
  decrypt : (JsString → Reply) → JsString → Option (List UInt8)
  /-- What is in an armour is a binary string. -/
  binary : ∀ armored raw, decodeArmor armored = some raw → ∀ u ∈ raw, u.toNat < 256
  /-- What decrypts, with whatever signature the client has verified, is what was encrypted. -/
  decrypt_encrypt : ∀ seed round payload armored raw reply bytes,
    encrypt seed round payload = some armored → decodeArmor armored = some raw →
      decrypt reply raw = some bytes → bytes = payload

/-- tlock.ts:23. -/
def drandEncrypt (T : Tlock) (seed : List UInt8) (round : JsNum) (plaintext : JsString) :
    Result (List UInt8) := do
  let armored ← ofEngine (T.encrypt seed round (utf8 plaintext))
  let rawBin ← ofEngine (T.decodeArmor armored)
  .ok (binStrToBytes rawBin)

/-- tlock.ts:29. -/
def drandDecrypt (T : Tlock) (reply : JsString → Reply) (ct : List UInt8) : Result JsString :=
  (ofEngine (T.decrypt reply (bytesToBinStr ct))).map bufferText

theorem bytesToBinStr_binStrToBytes {s : JsString} (h : ∀ u ∈ s, u.toNat < 256) :
    bytesToBinStr (binStrToBytes s) = s := by
  rw [bytesToBinStr, binStrToBytes, List.map_map]
  refine (List.map_congr_left fun u hu => ?_).trans (List.map_id s)
  have hlt := h u hu
  refine UInt16.toNat_inj.1 ?_
  simp only [Function.comp_apply, UInt8.toNat_toUInt16, UInt16.toNat_toUInt8, id_eq]
  omega

theorem bufferText_utf8 (message : JsString) :
    bufferText (utf8 message) = (toWellFormed message).flatMap units := by
  rw [bufferText, utf8, decodeLossy_encode]

/-- Exactly the texts without lone surrogates come back, a mark in front or not. -/
theorem bufferText_utf8_iff {message : JsString} :
    bufferText (utf8 message) = message ↔ WellFormed message := by
  rw [bufferText_utf8]
  constructor
  · intro h
    exact h ▸ wellFormed_flatMap_units _
  · exact WellFormed.flatMap_units

theorem ofEngine_eq_ok {α : Type} {o : Option α} {a : α} : ofEngine o = .ok a ↔ o = some a := by
  cases o <;> simp [ofEngine]

/-- **The round trip of tlock.ts.** -/
theorem drandDecrypt_drandEncrypt {T : Tlock} {seed ct : List UInt8} {round : JsNum}
    {message plaintext : JsString} {reply : JsString → Reply}
    (hct : drandEncrypt T seed round message = .ok ct)
    (hplain : drandDecrypt T reply ct = .ok plaintext) : plaintext = bufferText (utf8 message) := by
  obtain ⟨armored, harmored, hct⟩ := bind_eq_ok.1 hct
  obtain ⟨raw, hraw, hct⟩ := bind_eq_ok.1 hct
  cases hct
  have hraw := ofEngine_eq_ok.1 hraw
  rw [drandDecrypt, bytesToBinStr_binStrToBytes (T.binary _ _ hraw)] at hplain
  cases hbytes : T.decrypt reply raw with
  | none =>
    rw [hbytes] at hplain
    cases hplain
  | some bytes =>
    rw [hbytes] at hplain
    cases hplain
    rw [T.decrypt_encrypt _ _ _ _ _ _ _ (ofEngine_eq_ok.1 harmored) hraw hbytes]

namespace App

/-! ## Where texts come from -/

/-- What items show, and will show after a render or a reload, is of a kind `Q`. -/
structure Texts (Q : Origin → JsString → Prop) (s : State) : Prop where
  items : ∀ it ∈ s.items, ∀ p, it.plaintext = some p → Q it.origin p
  view : ∀ it ∈ s.view, ∀ p, it.plaintext = some p → Q it.origin p
  stored : ∀ it ∈ Tabs.load s.stored, ∀ p, it.plaintext = some p → Q it.origin p

/-- The attempt at `i` goes on with the outcome, and patches its item. -/
def Patches (A : AesGcm) (s : State) (a : Action) (att : Attempt) (p : Patch) : Prop :=
  ∃ i o next, a = .advance i o ∧ s.attempts[i]? = some att ∧
    advance A att.item att.stage o = some (some p, next)

section
variable {A : AesGcm} {Q Q' : Origin → JsString → Prop} {s t : State} {a : Action}

theorem texts_init : Texts Q State.init := by
  refine ⟨?_, ?_, ?_⟩ <;> rintro it ⟨⟩

theorem Texts.mono (h : Texts Q s) (hQ : ∀ o p, Q o p → Q' o p) : Texts Q' s :=
  ⟨fun it hit p hp => hQ _ _ (h.items it hit p hp), fun it hit p hp => hQ _ _ (h.view it hit p hp),
    fun it hit p hp => hQ _ _ (h.stored it hit p hp)⟩

/-- The list changes, and what is new in it shows only such texts. -/
theorem Texts.frame (h : Texts Q s) (hview : t.view = s.view) (hstored : t.stored = s.stored)
    (hitems : ∀ it ∈ t.items, ∀ p, it.plaintext = some p → it ∈ s.items ∨ Q it.origin p) :
    Texts Q t := by
  refine ⟨fun it hit p hp => ?_, hview ▸ h.view, hstored ▸ h.stored⟩
  rcases hitems it hit p hp with hold | hnew
  · exact h.items it hold p hp
  · exact hnew

/-- A patch of an item for the same capsule. -/
theorem Texts.patchItems (h : Texts Q s) {o : Origin} {q : Option Patch}
    (hid : ∀ it ∈ s.items, it.id = o.id → it.origin = o)
    (hq : ∀ q', q = some q' → ∀ p, q'.plaintext = some p → Q o p) :
    ∀ it ∈ App.patchItems s.items o.id q, ∀ p, it.plaintext = some p → Q it.origin p := by
  intro it hit p hp
  rcases mem_patchItems hit with hold | ⟨it', hit', q', hq', hid', rfl⟩
  · exact h.items it hold p hp
  · have hp : q'.plaintext.or it'.plaintext = some p := hp
    have horigin : it'.origin = o := hid it' hit' hid'
    have hgoal : Q it'.origin p := by
      cases htext : q'.plaintext with
      | none =>
        rw [htext, Option.none_or] at hp
        exact h.items it' hit' p hp
      | some text =>
        rw [htext, Option.some_or] at hp
        exact horigin ▸ hq q' hq' p (htext.trans hp)
    exact hgoal

/-- A patch without a text, whoever it is for. -/
theorem Texts.quiet (h : Texts Q s) {id : JsString} {q : Patch} (hq : q.plaintext = none) :
    ∀ it ∈ updateItem s.items id q, ∀ p, it.plaintext = some p → it ∈ s.items ∨ Q it.origin p := by
  intro it hit p hp
  rcases mem_updateItem hit with hold | ⟨it', hit', -, rfl⟩
  · exact Or.inl hold
  · have hp : q.plaintext.or it'.plaintext = some p := hp
    rw [hq, Option.none_or] at hp
    exact Or.inr (h.items it' hit' p hp)

theorem Texts.tryUnseal (h : Texts Q s) (item : QueueItem) : Texts Q (s.tryUnseal item) := by
  unfold State.tryUnseal
  split
  · exact h
  · refine h.frame rfl rfl fun it hit p hp => ?_
    have hquiet := (start_spec (fun _ => True) item).2
    cases hstart : (start item).1 with
    | none =>
      rw [hstart] at hit
      exact Or.inl hit
    | some q =>
      rw [hstart] at hit
      exact h.quiet (hquiet q hstart).1 it hit p hp

theorem Texts.insert (h : Texts Q s) {item : QueueItem} (hplain : item.plaintext = none)
    (hitems : ∀ it ∈ t.items, it ∈ s.items ∨ it = item) (hview : t.view = s.view)
    (hstored : t.stored = s.stored) : Texts Q t := by
  refine h.frame hview hstored fun it hit p hp => ?_
  rcases hitems it hit with hold | rfl
  · exact Or.inl hold
  · rw [hplain] at hp
    cases hp

theorem Texts.insertSealed (h : Texts Q s) {item : QueueItem} (hplain : item.plaintext = none)
    (hstep : s.insertSealed item = some t) : Texts Q t := by
  unfold State.insertSealed at hstep
  split at hstep
  · cases hstep
    refine h.insert hplain (fun it hit => ?_) rfl rfl
    exact (List.mem_append.1 hit).imp_right List.mem_singleton.1
  · cases hstep

theorem Texts.insertImport (h : Texts Q s) {item : QueueItem} (hplain : item.plaintext = none)
    (hstep : s.insertImport item = some t) : Texts Q t := by
  unfold State.insertImport at hstep
  split at hstep
  · cases hstep
    exact h.insert hplain (fun it hit => mem_insertImported hit) rfl rfl
  · cases hstep

/-- **Where an attempt writes only texts of a kind for its capsule, capsules show only such texts.** -/
theorem Texts.step (hinv : Inv A s) (h : Texts Q s) (hstep : s.step A a = some t)
    (hwrites : ∀ att q, Patches A s a att q → ∀ p, q.plaintext = some p → Q att.item.origin p) :
    Texts Q t := by
  cases a with
  | render =>
    cases hstep
    exact ⟨h.items, h.items, h.stored⟩
  | save =>
    cases hstep
    refine ⟨h.items, h.view, fun it hit p hp => ?_⟩
    rw [Tabs.load_saved] at hit
    obtain ⟨it', hit', rfl⟩ := List.mem_map.1 hit
    exact h.view it' hit' p hp
  | sealDrand round actualUnlock ct recipientEns senderEns newId now =>
    exact h.insertSealed rfl hstep
  | sealCtrng message unlockUnix recipientEns senderEns reply keyBytes iv newId now =>
    rw [State.step] at hstep
    split at hstep
    · cases hstep
      exact h
    · rename_i item hitem
      refine h.insertSealed ?_ hstep
      obtain ⟨sealed, -, rfl⟩ := sealCtrng_cases hitem
      rfl
  | importLink page readEnsText timeAt now newId =>
    rw [State.step] at hstep
    split at hstep
    · rename_i item hitem
      exact h.insertImport (plaintext_importLink hitem) hstep
    · cases hstep
      exact h
  | tick now =>
    cases hstep
    refine tickLoop_inv (fun s it _ _ hs => ?_) (fun s it _ _ hs => hs.tryUnseal it) h
    exact hs.frame rfl rfl (hs.quiet rfl)
  | click id =>
    rw [State.step] at hstep
    split at hstep
    · cases hstep
      exact h
    · cases hstep
      exact h.tryUnseal _
  | advance i o =>
    obtain ⟨att, ha, hstep⟩ := Option.bind_eq_some_iff.1 hstep
    obtain ⟨⟨q, next⟩, hadv, heq⟩ := Option.bind_eq_some_iff.1 hstep
    cases heq
    have hknown := (hinv.attempts att (List.mem_of_getElem? ha)).known
    have hfields : (s.afterAdvance i att o q next).view = s.view ∧
        (s.afterAdvance i att o q next).stored = s.stored ∧
        (s.afterAdvance i att o q next).items = App.patchItems s.items att.item.id q := by
      cases next <;> exact ⟨rfl, rfl, rfl⟩
    refine h.frame hfields.1 hfields.2.1 fun it hit p hp => Or.inr ?_
    rw [hfields.2.2] at hit
    refine h.patchItems (o := att.item.origin) (fun it hit hid => ?_) (fun q' hq' p hp => ?_) it hit p hp
    · exact hinv.unique _ (hinv.items it hit).known _ hknown hid
    · subst hq'
      exact hwrites att q' ⟨i, o, next, rfl, ha, hadv⟩ p hp
  | published i name =>
    obtain ⟨id, -, rfl⟩ := Option.map_eq_some_iff.1 hstep
    refine h.frame rfl rfl (h.quiet ?_)
    cases name <;> rfl
  | delete id =>
    cases hstep
    exact h.frame rfl rfl fun it hit p hp => Or.inl (List.mem_filter.1 hit).1
  | reload =>
    cases hstep
    exact ⟨h.stored, h.stored, h.stored⟩

theorem attempts_insertSealed {item : QueueItem} (hstep : s.insertSealed item = some t) :
    t.attempts = s.attempts := by
  unfold State.insertSealed at hstep
  split at hstep
  · cases hstep
    rfl
  · cases hstep

/-- An attempt after a step was there before, has just begun, or has gone on. -/
theorem attempt_step (hstep : s.step A a = some t) {att : Attempt} (hatt : att ∈ t.attempts) :
    att ∈ s.attempts ∨ att.stage = (start att.item).2 ∨
      ∃ i o att' p, a = .advance i o ∧ s.attempts[i]? = some att' ∧ att'.item = att.item ∧
        advance A att'.item att'.stage o = some (p, some att.stage) := by
  have hbegun : ∀ {s' : State} (item : QueueItem),
      (∀ att ∈ s'.attempts, att ∈ s.attempts ∨ att.stage = (start att.item).2) →
        ∀ att ∈ (s'.tryUnseal item).attempts, att ∈ s.attempts ∨ att.stage = (start att.item).2 := by
    intro s' item h att hatt
    unfold State.tryUnseal at hatt
    split at hatt
    · exact h att hatt
    · rcases List.mem_append.1 hatt with hold | hnew
      · exact h att hold
      · rw [List.mem_singleton.1 hnew]
        exact Or.inr rfl
  cases a with
  | tick now =>
    cases hstep
    have hall : ∀ att ∈ (s.tickLoop (JsNum.divBy 1000 (ofRat now.ms)) s.view).attempts,
        att ∈ s.attempts ∨ att.stage = (start att.item).2 :=
      tickLoop_inv (P := fun s' => ∀ att ∈ s'.attempts, att ∈ s.attempts ∨
        att.stage = (start att.item).2) (fun s' it _ _ h => h) (fun s' it _ _ h => hbegun it h)
        fun att hatt => Or.inl hatt
    exact (hall att hatt).imp_right Or.inl
  | click id =>
    rw [State.step] at hstep
    split at hstep
    · cases hstep
      exact Or.inl hatt
    · cases hstep
      exact (hbegun _ (fun att hatt => Or.inl hatt) att hatt).imp_right Or.inl
  | advance i o =>
    obtain ⟨att', ha, hstep⟩ := Option.bind_eq_some_iff.1 hstep
    obtain ⟨⟨p, next⟩, hadv, heq⟩ := Option.bind_eq_some_iff.1 hstep
    cases heq
    cases next with
    | none => exact Or.inl (List.mem_of_mem_eraseIdx hatt)
    | some st =>
      have hatt : att ∈ s.attempts.set i ⟨att'.item, st⟩ := hatt
      rcases List.mem_or_eq_of_mem_set hatt with hold | rfl
      · exact Or.inl hold
      · exact Or.inr (Or.inr ⟨i, o, att', p, rfl, ha, rfl, hadv⟩)
  | sealDrand round actualUnlock ct recipientEns senderEns newId now =>
    exact Or.inl (attempts_insertSealed hstep ▸ hatt)
  | sealCtrng message unlockUnix recipientEns senderEns reply keyBytes iv newId now =>
    rw [State.step] at hstep
    split at hstep
    · cases hstep
      exact Or.inl hatt
    · exact Or.inl (attempts_insertSealed hstep ▸ hatt)
  | importLink page readEnsText timeAt now newId =>
    rw [State.step] at hstep
    split at hstep
    · unfold State.insertImport at hstep
      split at hstep
      · cases hstep
        exact Or.inl hatt
      · cases hstep
    · cases hstep
      exact Or.inl hatt
  | published i name =>
    obtain ⟨id, -, rfl⟩ := Option.map_eq_some_iff.1 hstep
    exact Or.inl hatt
  | reload =>
    cases hstep
    cases hatt
  | _ =>
    cases hstep
    exact Or.inl hatt

end

/-! ## What a drand item shows -/

section
variable (A : AesGcm)

/-- After these actions the attempt at `i` works on the item and waits at the stage. -/
def At (as : List Action) (i : ℕ) (item : QueueItem) (st : Stage) : Prop :=
  ∃ m, (app A).run (app A).init as = some m ∧ m.attempts[i]? = some ⟨item, st⟩

/-- An attempt on the item was told that drand has a signature, and has been decrypting since. An id has
one attempt at a time, so this is one and the same. -/
def Told (as : List Action) (item : QueueItem) (ct : List UInt8) : Prop :=
  ∃ before i between, as = before ++ .advance i (.round (.ok true)) :: between ∧
    At A before i item .fetchingRound ∧
    ∀ cs, cs <+: between →
      ∃ k, At A (before ++ .advance i (.round (.ok true)) :: cs) k item (.decrypting ct)

/-- A ciphertext was decrypted to the text, by an attempt for the id that had been told before. -/
def Decrypted (as : List Action) (id : JsString) (ct : List UInt8) (p : JsString) : Prop :=
  ∃ before j after item, as = before ++ .advance j (.decrypted (.ok p)) :: after ∧ item.id = id ∧
    At A before j item (.decrypting ct) ∧ Told A before item ct

/-- What a drand item shows was decrypted from its envelope. -/
def ShownBy (as : List Action) (o : Origin) (p : JsString) : Prop :=
  o.backend = .drand → ∃ parsed, unpack o.envelope = .ok parsed ∧ Decrypted A as o.id parsed.ct p

end

section
variable {A : AesGcm} {as : List Action} {s : State}

theorem Decrypted.append {id : JsString} {ct : List UInt8} {p : JsString}
    (h : Decrypted A as id ct p) (bs : List Action) : Decrypted A (as ++ bs) id ct p := by
  obtain ⟨before, j, after, item, rfl, hrest⟩ := h
  exact ⟨before, j, after ++ bs, item, by simp, hrest⟩

/-- An attempt that was told goes on decrypting. -/
theorem Told.concat {item : QueueItem} {ct : List UInt8} {a : Action} {i : ℕ}
    (h : Told A as item ct) (hat : At A (as ++ [a]) i item (.decrypting ct)) :
    Told A (as ++ [a]) item ct := by
  obtain ⟨before, j, between, rfl, hasked, hkept⟩ := h
  have hassoc : (before ++ .advance j (.round (.ok true)) :: between) ++ [a] =
      before ++ .advance j (.round (.ok true)) :: (between ++ [a]) := by simp
  rw [hassoc] at hat ⊢
  refine ⟨before, j, between ++ [a], rfl, hasked, fun cs hcs => ?_⟩
  rcases List.prefix_concat_iff.1 hcs with rfl | hcs
  · exact ⟨i, hat⟩
  · exact hkept cs hcs

/-- What an attempt that decrypts has behind it. -/
def HasRound (A : AesGcm) (as : List Action) (att : Attempt) : Prop :=
  ∀ ct, att.stage = .decrypting ct → Told A as att.item ct ∧
    ∃ parsed, unpack att.item.envelope = .ok parsed ∧ parsed.ct = ct

theorem start_ne_decrypting (item : QueueItem) (ct : List UInt8) : (start item).2 ≠ .decrypting ct := by
  unfold start
  cases item.backend with
  | drand =>
    simp only
    split <;> simp
  | ctrng =>
    simp only
    split
    · simp
    · split <;> simp

theorem gate_ne_decrypting (item : QueueItem) (parsed : ParsedCtrngEnvelope) (witness : BeaconBlock)
    (ct : List UInt8) : (gate item parsed witness).2 ≠ .decrypting ct := by
  unfold gate
  split
  · simp
  · split <;> simp
  · split <;> simp

/-- The decryption begins with the ciphertext of the envelope, once there is a signature. -/
theorem advance_decrypting {item : QueueItem} {st : Stage} {o : Outcome} {p : Option Patch}
    {ct : List UInt8} (h : advance A item st o = some (p, some (.decrypting ct))) :
    st = .fetchingRound ∧ o = .round (.ok true) ∧
      ∃ parsed, unpack item.envelope = .ok parsed ∧ parsed.ct = ct := by
  have hstage : st = .fetchingRound := by
    generalize hnext : some (Stage.decrypting ct) = next at h
    cases advance_cases h with
    | decrypts hunpack => rfl
    | fetched hfetch => exact absurd (Option.some.inj hnext).symm (gate_ne_decrypting _ _ _ ct)
    | _ => cases hnext
  subst hstage
  cases o with
  | round sig =>
    rcases sig with e | _ | _
    · cases h
    · cases h
    · rw [advance] at h
      split at h
      · cases h
      · rename_i parsed hunpack
        cases h
        exact ⟨rfl, rfl, parsed, hunpack, rfl⟩
  | _ => cases h

/-- An attempt on a drand item writes what was decrypted. -/
theorem advance_text {Seen : BeaconBlock → Prop} {item : QueueItem} {st : Stage} {o : Outcome}
    {q : Patch} {next : Option Stage} {p : JsString} (hbackend : item.backend = .drand)
    (hst : StageOk Seen item st) (h : advance A item st o = some (some q, next))
    (hp : q.plaintext = some p) : ∃ ct, st = .decrypting ct ∧ o = .decrypted (.ok p) := by
  have hstage : ∃ ct, st = .decrypting ct := by
    generalize hq : some q = q' at h
    cases advance_cases h with
    | @decrypted ct => exact ⟨ct, rfl⟩
    | @fetched parsed reply witness hfetch =>
      rw [hst.1] at hbackend
      cases hbackend
    | opened hopen =>
      have hctrng := hst.1.backend
      rw [hbackend] at hctrng
      cases hctrng
    | _ =>
      cases hq
      try cases hp
  obtain ⟨ct, rfl⟩ := hstage
  cases o with
  | decrypted plaintext =>
    cases plaintext with
    | error e => cases h
    | ok plaintext =>
      cases h
      cases hp
      exact ⟨ct, rfl, rfl⟩
  | _ => cases h

/-- Only a signature leads to a decryption. -/
theorem hasRound_step {m t : State} {a : Action} (hm : (app A).run (app A).init as = some m)
    (h : ∀ att ∈ m.attempts, HasRound A as att) (hstep : m.step A a = some t) :
    ∀ att ∈ t.attempts, HasRound A (as ++ [a]) att := by
  intro att hatt ct hst
  have hrun : (app A).run (app A).init (as ++ [a]) = some t := Lts.run_concat _ hm hstep
  obtain ⟨k, hk⟩ := List.getElem?_of_mem hatt
  have hat : At A (as ++ [a]) k att.item (.decrypting ct) := ⟨t, hrun, hst ▸ hk⟩
  rcases attempt_step hstep hatt with hold | hbegun | ⟨i, o, att', p, rfl, ha, hitem, hadv⟩
  · obtain ⟨htold, hparsed⟩ := h att hold ct hst
    exact ⟨htold.concat hat, hparsed⟩
  · exact absurd (hbegun.symm.trans hst) (start_ne_decrypting _ ct)
  · rw [hst] at hadv
    obtain ⟨hstage, rfl, hparsed⟩ := advance_decrypting hadv
    rw [hitem] at hparsed
    have hasked : m.attempts[i]? = some ⟨att.item, .fetchingRound⟩ := by
      rw [ha, ← hitem, ← hstage]
    refine ⟨⟨as, i, [], rfl, ⟨m, hm, hasked⟩, fun cs hcs => ?_⟩, hparsed⟩
    rw [List.prefix_nil.1 hcs]
    exact ⟨k, hat⟩

/-- In every run, what a drand item shows was decrypted from its envelope, by an attempt for it that was
told before that there is a signature. -/
theorem run_texts {it : QueueItem} {p : JsString}
    (hrun : (app A).run (app A).init as = some s) (hit : it ∈ s.items)
    (hbackend : it.backend = .drand) (hplain : it.plaintext = some p) :
    ∃ parsed, unpack it.envelope = .ok parsed ∧ Decrypted A as it.id parsed.ct p := by
  have hall : Inv A s ∧ (∀ att ∈ s.attempts, HasRound A as att) ∧ Texts (ShownBy A as) s := by
    refine Lts.run_inv_history (P := fun as s => Inv A s ∧ (∀ att ∈ s.attempts, HasRound A as att) ∧
      Texts (ShownBy A as) s) ?_ ?_ hrun
    · exact ⟨inv_init A, by rintro att ⟨⟩, texts_init⟩
    · rintro as m a t hm ⟨hinv, hround, htexts⟩ hstep
      refine ⟨step_inv m a t hinv hstep, hasRound_step hm hround hstep, ?_⟩
      have hmono : Texts (ShownBy A (as ++ [a])) m := htexts.mono fun o p h hdrand => by
        obtain ⟨parsed, hparsed, hdec⟩ := h hdrand
        exact ⟨parsed, hparsed, hdec.append _⟩
      refine hmono.step hinv hstep fun att q hpatch p hp hdrand => ?_
      obtain ⟨i, o, next, rfl, ha, hadv⟩ := hpatch
      have hmem := List.mem_of_getElem? ha
      obtain ⟨ct, hst, rfl⟩ := advance_text hdrand (hinv.attempts att hmem).stage hadv hp
      obtain ⟨htold, parsed, hparsed, rfl⟩ := hround att hmem ct hst
      have hat : At A as i att.item (.decrypting parsed.ct) := ⟨m, hm, by rw [ha, ← hst]⟩
      exact ⟨parsed, hparsed, as, i, [], att.item, rfl, rfl, hat, htold⟩
  exact hall.2.2.items it hit p hplain hbackend

end

/-! ## What comes from drand -/

/-- Where requests are answered so, the outcome is that of `fetchRound` for the round of the item, or
that of `tlock.ts` for the ciphertext. -/
def Outcome.From (T : Tlock) (reply : JsString → Reply) (item : QueueItem) : Stage → Outcome → Prop
  | .fetchingRound, .round sig => sig = (fetchRound reply item.round).map Backend.truthy
  | .decrypting ct, .decrypted plaintext => plaintext = drandDecrypt T reply ct
  | _, _ => True

section
variable (A : AesGcm) (T : Tlock) (net : ℕ → JsString → Reply)

/-- The outcomes in a run are those of drand.ts and tlock.ts, where `net n` answers the requests of the
action with the number `n`. -/
def FromDrand (as : List Action) : Prop :=
  ∀ before i o after item st, as = before ++ .advance i o :: after → At A before i item st →
    o.From T (net before.length) item st

/-- An endpoint has a signature for the round. -/
def HasSignature (reply : JsString → Reply) (round : JsValue) : Prop :=
  ∃ base ∈ API_BASES, ∃ v, fetchRoundFrom round reply base = .ok v ∧ Backend.truthy v = true

/-- An attempt that has come through: drand had a signature for the round of its item, it has been
decrypting ever since, and the ciphertext is decrypted to the text. -/
structure Decryption (as : List Action) (id : JsString) (ct : List UInt8) (p : JsString) where
  before : List Action
  i : ℕ
  between : List Action
  j : ℕ
  after : List Action
  item : QueueItem
  run_eq : as = before ++ .advance i (.round (.ok true)) ::
    (between ++ .advance j (.decrypted (.ok p)) :: after)
  id_eq : item.id = id
  asked : At A before i item .fetchingRound
  signed : HasSignature (net before.length) item.round
  running : ∀ cs, cs <+: between →
    ∃ k, At A (before ++ .advance i (.round (.ok true)) :: cs) k item (.decrypting ct)
  ended : At A (before ++ .advance i (.round (.ok true)) :: between) j item (.decrypting ct)
  decrypts : drandDecrypt T (net (before ++ .advance i (.round (.ok true)) :: between).length) ct =
    .ok p

end

section
variable {A : AesGcm} {T : Tlock} {net : ℕ → JsString → Reply} {as : List Action} {s : State}

theorem Decrypted.decryption {id : JsString} {ct : List UInt8} {p : JsString}
    (h : Decrypted A as id ct p) (hnet : FromDrand A T net as) :
    Nonempty (Decryption A T net as id ct p) := by
  obtain ⟨_, j, after, item, rfl, hid, hended, before, i, between, rfl, hasked, hrunning⟩ := h
  have hrun_eq : (before ++ .advance i (.round (.ok true)) :: between) ++
      .advance j (.decrypted (.ok p)) :: after = before ++ .advance i (.round (.ok true)) ::
        (between ++ .advance j (.decrypted (.ok p)) :: after) := by simp
  have hround := hnet before i _ _ item _ hrun_eq hasked
  obtain ⟨v, hv, base, hbase, hfetch⟩ := fetchRound_truthy hround.symm
  exact ⟨{
    before, i, between, j, after, item
    run_eq := hrun_eq
    id_eq := hid
    asked := hasked
    signed := ⟨base, hbase, v, hfetch, hv⟩
    running := hrunning
    ended := hended
    decrypts := (hnet _ j _ after item _ rfl hended).symm }⟩

/-- **In every run, what a drand item shows was decrypted from its envelope**, by an attempt for it that
had asked drand for the round of its item and been told that there is a signature. -/
theorem run_decrypted {it : QueueItem} {p : JsString}
    (hrun : (app A).run (app A).init as = some s) (hnet : FromDrand A T net as) (hit : it ∈ s.items)
    (hbackend : it.backend = .drand) (hplain : it.plaintext = some p) :
    ∃ parsed, unpack it.envelope = .ok parsed ∧
      Nonempty (Decryption A T net as it.id parsed.ct p) := by
  obtain ⟨parsed, hparsed, hdec⟩ := run_texts hrun hit hbackend hplain
  exact ⟨parsed, hparsed, hdec.decryption hnet⟩

/-- An action that is no step of an attempt takes nothing from drand. -/
theorem fromDrand_of_quiet (h : ∀ i o, .advance i o ∉ as) : FromDrand A T net as := by
  rintro before i o after item st rfl -
  exact absurd (List.mem_append_right before List.mem_cons_self) (h i o)

/-- A run goes on with a step of the attempt at `i`. -/
theorem FromDrand.concat {i : ℕ} {o : Outcome} {a : Attempt} (h : FromDrand A T net as)
    (hrun : (app A).run (app A).init as = some s) (ha : s.attempts[i]? = some a)
    (ho : o.From T (net as.length) a.item a.stage) : FromDrand A T net (as ++ [.advance i o]) := by
  intro before i' o' after item st heq hat
  rcases List.eq_nil_or_concat after with rfl | ⟨after, b, rfl⟩
  · -- this is the last step
    obtain ⟨rfl, hlast⟩ := List.append_inj' heq rfl
    cases hlast
    obtain ⟨m, hm, hitem⟩ := hat
    rw [hrun] at hm
    cases hm
    rw [ha] at hitem
    cases hitem
    exact ho
  · have hsplit : as ++ [.advance i o] = (before ++ .advance i' o' :: after) ++ [b] := by
      rw [heq]
      simp
    exact h before i' o' after item st (List.append_inj' hsplit rfl).1 hat

/-- A tlock that hides nothing: the ciphertext is the payload. -/
def plainTlock : Tlock where
  encrypt _ _ payload := some (bytesToBinStr payload)
  decodeArmor armored := if armored.all fun u => decide (u.toNat < 256) then some armored else none
  decrypt _ raw := some (binStrToBytes raw)
  binary armored raw h u hu := by
    obtain ⟨hall, heq⟩ := Option.ite_none_right_eq_some.1 h
    cases heq
    exact of_decide_eq_true (List.all_eq_true.1 hall u hu)
  decrypt_encrypt seed round payload armored raw reply bytes henc hraw hdec := by
    obtain ⟨-, heq⟩ := Option.ite_none_right_eq_some.1 hraw
    cases heq
    cases henc
    cases hdec
    rw [binStrToBytes, bytesToBinStr, List.map_map]
    refine (List.map_congr_left fun b _ => ?_).trans (List.map_id payload)
    simp

/-- What drand has for the first round. -/
def firstRound : JsString → Reply := replies (js "\x7b\"round\":1,\"signature\":\"aa\"\x7d")

/-- `hi` is decrypted for a drand item that is due. -/
theorem run_decrypted_hi :
    ∃ as s it, (app zeroVector).run (app zeroVector).init as = some s ∧ it ∈ s.items ∧
      it.plaintext = some (js "hi") ∧ ∃ parsed, unpack it.envelope = .ok parsed ∧
        Nonempty (Decryption zeroVector plainTlock (fun _ => firstRound) as it.id parsed.ct
          (js "hi")) := by
  let item := (sealDrand (ofRat 1) (ofRat 1) (utf8 (js "hi")) none none (js "a")
    halfSecond).patch State.toDue
  have hdue := run_dueDrandRun zeroVector (utf8 (js "hi"))
  have hunpack : unpack item.envelope = .ok _ :=
    (unpack_drandPayload (decodeBlob_encodeBlob
      (drandPayload (ofRat 1) (utf8 (js "hi")) none none))).1
  have hclick : (app zeroVector).run (app zeroVector).init
      (dueDrandRun (utf8 (js "hi")) ++ [.click (js "a")]) = some { State.init with
        items := [item], view := [item], publishing := [js "a"], known := [item.origin],
        inFlight := [item.id], attempts := [⟨item, .fetchingRound⟩] } :=
    Lts.run_trans _ hdue rfl
  have hround : (app zeroVector).run (app zeroVector).init
      (dueDrandRun (utf8 (js "hi")) ++ [.click (js "a")] ++ [.advance 0 (.round (.ok true))]) =
      some { State.init with
        items := [item.patch toUnsealing], view := [item], publishing := [js "a"],
        known := [item.origin], inFlight := [item.id],
        attempts := [⟨item, .decrypting (utf8 (js "hi"))⟩] } := by
    have hadv : advance zeroVector item .fetchingRound (.round (.ok true)) =
        some (some toUnsealing, some (.decrypting (utf8 (js "hi")))) := by
      rw [advance, hunpack]
    refine Lts.run_trans _ hclick ?_
    simp [Lts.run, app, State.step, State.afterAdvance, hadv, fetchedBy, patchItems, updateItem,
      State.init]
  have htext : (app zeroVector).run (app zeroVector).init
      (dueDrandRun (utf8 (js "hi")) ++ [.click (js "a")] ++ [.advance 0 (.round (.ok true))] ++
        [.advance 0 (.decrypted (.ok (js "hi")))]) = some { State.init with
        items := [(item.patch toUnsealing).patch (toUnsealed (js "hi"))], view := [item],
        publishing := [js "a"], known := [item.origin], inFlight := [item.id],
        attempts := [⟨item, .ended⟩] } := by
    have hadv : advance zeroVector item (.decrypting (utf8 (js "hi"))) (.decrypted (.ok (js "hi"))) =
        some (some (toUnsealed (js "hi")), some .ended) := rfl
    have hpatched : (item.patch toUnsealing).id = item.id := rfl
    refine Lts.run_trans _ hround ?_
    simp [Lts.run, app, State.step, State.afterAdvance, hadv, hpatched, fetchedBy, patchItems,
      updateItem, State.init]
  have hnet : FromDrand zeroVector plainTlock (fun _ => firstRound)
      (dueDrandRun (utf8 (js "hi")) ++ [.click (js "a")] ++ [.advance 0 (.round (.ok true))] ++
        [.advance 0 (.decrypted (.ok (js "hi")))]) := by
    refine ((fromDrand_of_quiet ?_).concat hclick rfl ?_).concat hround rfl ?_
    · simp [dueDrandRun]
    · have hsig : (fetchRound firstRound (.num (ofRat 1))).map Backend.truthy = .ok true := by
        decide +kernel
      exact hsig.symm
    · have hplain : drandDecrypt plainTlock firstRound (utf8 (js "hi")) = .ok (js "hi") := by decide
      exact hplain.symm
  exact ⟨_, _, _, htext, List.mem_singleton_self _, rfl,
    run_decrypted htext hnet (List.mem_singleton_self _) rfl rfl⟩

/-- **A drand capsule shows its message**, lone surrogates replaced and a mark in front kept. -/
theorem run_drand_message {seed ct : List UInt8} {round : JsNum} {message p : JsString}
    {senderEns recipientEns : Option JsString} {it : QueueItem}
    (hct : drandEncrypt T seed round message = .ok ct)
    (hrun : (app A).run (app A).init as = some s) (hnet : FromDrand A T net as) (hit : it ∈ s.items)
    (hbackend : it.backend = .drand) (henvelope : it.envelope = pack round ct senderEns recipientEns)
    (hplain : it.plaintext = some p) :
    p = bufferText (utf8 message) ∧ (p = message ↔ WellFormed message) := by
  obtain ⟨parsed, hparsed, hdec⟩ := run_texts hrun hit hbackend hplain
  have hpacked := (unpack_drandPayload (decodeBlob_encodeBlob
    (drandPayload round ct senderEns recipientEns))).1
  rw [← pack_eq, ← henvelope, hparsed] at hpacked
  cases hpacked
  obtain ⟨d⟩ := hdec.decryption hnet
  rw [drandDecrypt_drandEncrypt hct d.decrypts]
  exact ⟨rfl, bufferText_utf8_iff⟩

end

end App

end SealedSky.Web
