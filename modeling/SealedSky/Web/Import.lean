import SealedSky.Web.Share

/-!
# Importing a link (`sealed-sky-web/src/App.tsx:66-130`)

When the app mounts it builds an item from the link that it was opened with, and appends it unless an
item with that envelope is in the queue. The key of the link is dropped with the item, and the fragment
that carried it is cleared.

* `import_sets_key_iff` — after an import the queue has the envelope with a key exactly when no item
  had the envelope before, or one had it with a key.
-/
namespace SealedSky.Web.App

open Js Fallible

/-- What a page was opened with: `location.search` and `location.hash`. -/
structure Page where
  search : JsString
  hash : JsString

/-- namestone.ts:72, as far as an import reads it. -/
structure CapsuleRecords where
  envelope : JsString
  createdAt : Option JsNum

/-- namestone.ts:83, on the text records of a name. A record that cannot be read is `null`. -/
def fetchCapsuleByEns (readEnsText : JsString → Option JsString) : Option CapsuleRecords := do
  let envelope ← nonEmpty (readEnsText (js "envelope"))
  some { envelope, createdAt := (nonEmpty (readEnsText (js "created_at"))).map parseInt }

/-- `ensParam`. -/
def ensParam (page : Page) : Option JsString :=
  nonEmpty (getParam (searchParams page.search) (js "ens"))

/-- `imp`, with the ENS name that it came from. -/
def findImport (page : Page) (readEnsText : JsString → JsString → Option JsString)
    (now : TimeValue) : Result (Option (ImportedItem × Option JsString)) :=
  match ensParam page with
  | some ens =>
    match fetchCapsuleByEns (readEnsText ens) with
    | none => .error (.error (js "no envelope text record on " ++ ens))
    | some records =>
      .ok (some
        ({ envelope := records.envelope
           createdAt := records.createdAt.getD (secondsOf now)
           ctrngKeyB64 := readKeyFragment page.hash }, some ens))
  | none => .ok ((parseFragment page.hash now).map fun imp => (imp, none))

/-- `unlockUnix`. For drand `timeAt` gives the time of a round, or what `getChainInfo` throws. -/
def importedUnlock (draft : QueueItem) (timeAt : JsValue → Result JsValue) : Result JsValue :=
  if draft.backend = .drand ∧ isUndefined draft.round = false then timeAt draft.round
  else .ok draft.unlockUnix

/-- `finalised`. -/
def finalise (imp : ImportedItem) (capsuleEns : Option JsString) (timeAt : JsValue → Result JsValue)
    (newId : JsString) : Result QueueItem := do
  let draft ← buildItemFromImport imp newId
  let unlockUnix ← importedUnlock draft timeAt
  .ok { draft with unlockUnix, capsuleEns }

/-- App.tsx:73, up to `setItems`: the item of the link, if there is a link. -/
def importLink (page : Page) (readEnsText : JsString → JsString → Option JsString)
    (timeAt : JsValue → Result JsValue) (now : TimeValue) (newId : JsString) :
    Result (Option QueueItem) := do
  match ← findImport page readEnsText now with
  | none => .ok none
  | some (imp, capsuleEns) => (finalise imp capsuleEns timeAt newId).map some

/-- App.tsx:106. -/
def insertImported (items : List QueueItem) (finalised : QueueItem) : List QueueItem :=
  match findByEnvelope items finalised.envelope with
  | some _ => items
  | none => items ++ [finalised]

/-! ## Links with a key -/

/-- A link carries an envelope and a key. -/
def Carries (page : Page) (readEnsText : JsString → JsString → Option JsString) (now : TimeValue)
    (envelope k : JsString) : Prop :=
  ∃ imp ens, findImport page readEnsText now = .ok (some (imp, ens)) ∧ imp.envelope = envelope ∧
    imp.ctrngKeyB64 = some k

/-- An item with the envelope has a key. -/
def HasKey (items : List QueueItem) (envelope : JsString) : Prop :=
  ∃ it ∈ items, it.envelope = envelope ∧ (nonEmpty it.ctrngKeyB64).isSome

theorem b64UrlDecode_ne_nil {s : JsString} (h : s ≠ []) : b64UrlDecode s ≠ [] := by
  obtain ⟨u, s, rfl⟩ := List.exists_cons_of_ne_nil h
  exact List.cons_ne_nil _ _

theorem keyOf_nonEmpty {params : List (JsString × JsString)} {k : JsString}
    (h : keyOf params = some k) : nonEmpty (some k) = some k := by
  obtain ⟨kUrl, hkUrl, rfl⟩ := Option.map_eq_some_iff.1 h
  have hne : kUrl ≠ [] := by
    rintro rfl
    have := (Option.filter_eq_some_iff.1 hkUrl).2
    cases this
  exact nonEmpty_some (b64UrlDecode_ne_nil hne)

/-- A key that a link carries is not empty. -/
theorem findImport_nonEmpty {page : Page} {readEnsText : JsString → JsString → Option JsString}
    {now : TimeValue} {imp : ImportedItem} {ens : Option JsString} {k : JsString}
    (h : findImport page readEnsText now = .ok (some (imp, ens)))
    (hk : imp.ctrngKeyB64 = some k) : nonEmpty (some k) = some k := by
  have hfragment : ∀ {params}, (params : Option (List (JsString × JsString))).bind keyOf = some k →
      nonEmpty (some k) = some k := by
    intro params hbind
    obtain ⟨ps, -, hps⟩ := Option.bind_eq_some_iff.1 hbind
    exact keyOf_nonEmpty hps
  unfold findImport at h
  split at h
  · split at h
    · cases h
    · cases h
      exact hfragment hk
  · obtain ⟨imp', himp, heq⟩ := Option.map_eq_some_iff.1 (Except.ok.inj h)
    cases heq
    unfold parseFragment at himp
    obtain ⟨params, hparams, himp⟩ := Option.bind_eq_some_iff.1 himp
    obtain ⟨envUrl, -, himp⟩ := Option.bind_eq_some_iff.1 himp
    cases himp
    exact keyOf_nonEmpty hk

/-- What the item of a link takes from it. -/
theorem finalise_cases {imp : ImportedItem} {capsuleEns : Option JsString}
    {timeAt : JsValue → Result JsValue} {newId : JsString} {item : QueueItem}
    (h : finalise imp capsuleEns timeAt newId = .ok item) :
    item.id = newId ∧ item.envelope = imp.envelope ∧ item.plaintext = none ∧
      item.status = .sealed ∧ peekBackend imp.envelope = .ok item.backend ∧
      (item.backend = .ctrng → item.ctrngKeyB64 = imp.ctrngKeyB64) := by
  obtain ⟨draft, hdraft, h⟩ := bind_eq_ok.1 h
  obtain ⟨unlockUnix, -, h⟩ := bind_eq_ok.1 h
  cases h
  obtain ⟨backend, hpeek, hdraft⟩ := bind_eq_ok.1 hdraft
  cases backend with
  | drand =>
    obtain ⟨parsed, -, hdraft⟩ := bind_eq_ok.1 hdraft
    cases hdraft
    exact ⟨rfl, rfl, rfl, rfl, hpeek, fun h => nomatch h⟩
  | ctrng =>
    obtain ⟨parsed, -, hdraft⟩ := bind_eq_ok.1 hdraft
    cases hdraft
    exact ⟨rfl, rfl, rfl, rfl, hpeek, fun _ => rfl⟩

theorem finalise_of_importLink {page : Page}
    {readEnsText : JsString → JsString → Option JsString} {timeAt : JsValue → Result JsValue}
    {now : TimeValue} {newId : JsString} {item : QueueItem}
    (h : importLink page readEnsText timeAt now newId = .ok (some item)) :
    ∃ imp ens, finalise imp ens timeAt newId = .ok item := by
  obtain ⟨found, -, h⟩ := bind_eq_ok.1 h
  cases found with
  | none => cases h
  | some found =>
    obtain ⟨imp, ens⟩ := found
    cases hfinal : finalise imp ens timeAt newId with
    | error e =>
      simp only [hfinal] at h
      cases h
    | ok item' =>
      simp only [hfinal] at h
      cases h
      exact ⟨imp, ens, hfinal⟩

theorem findByEnvelope_eq_none {items : List QueueItem} {envelope : JsString} :
    findByEnvelope items envelope = none ↔ ∀ it ∈ items, it.envelope ≠ envelope := by
  rw [findByEnvelope, List.find?_eq_none]
  simp only [decide_eq_true_eq, ne_eq]

/-- **After an import the queue has the envelope with a key** exactly when no item had the envelope
before, or one had it with a key. -/
theorem import_sets_key_iff {page : Page} {readEnsText : JsString → JsString → Option JsString}
    {timeAt : JsValue → Result JsValue} {now : TimeValue} {newId envelope k : JsString}
    {item : QueueItem} (hlink : Carries page readEnsText now envelope k)
    (himport : importLink page readEnsText timeAt now newId = .ok (some item))
    (hbackend : peekBackend envelope = .ok .ctrng) (items : List QueueItem) :
    HasKey (insertImported items item) envelope ↔
      (∀ it ∈ items, it.envelope ≠ envelope) ∨ HasKey items envelope := by
  obtain ⟨imp, ens, hfind, rfl, hk⟩ := hlink
  obtain ⟨found, hfound, himport⟩ := bind_eq_ok.1 himport
  rw [hfind] at hfound
  cases hfound
  obtain ⟨hitem, henvelope, hkey⟩ : finalise imp ens timeAt newId = .ok item ∧
      item.envelope = imp.envelope ∧ item.ctrngKeyB64 = some k := by
    cases hfinal : finalise imp ens timeAt newId with
    | error e =>
      simp only [hfinal] at himport
      cases himport
    | ok item' =>
      simp only [hfinal] at himport
      cases himport
      obtain ⟨-, henvelope, -, -, hpeek, hkey⟩ := finalise_cases hfinal
      rw [hbackend] at hpeek
      exact ⟨rfl, henvelope, (hkey (Except.ok.inj hpeek).symm).trans hk⟩
  unfold insertImported
  cases hfound : findByEnvelope items item.envelope with
  | none =>
    have hfresh := findByEnvelope_eq_none.1 hfound
    rw [henvelope] at hfresh
    refine iff_of_true ⟨item, by simp, henvelope, ?_⟩ (Or.inl hfresh)
    rw [hkey, findImport_nonEmpty hfind hk]
    rfl
  | some it =>
    have hit := List.mem_of_find?_eq_some hfound
    have heq : it.envelope = item.envelope := by
      simpa using List.find?_some hfound
    constructor
    · exact Or.inr
    · rintro (hnone | hsome)
      · exact absurd (heq.trans henvelope) (hnone it hit)
      · exact hsome

/-! ## A capsule opened without its key, and then with it -/

/-- The envelope of a cTRNG capsule. -/
def sampleEnvelope : JsString := packCtrng (ofRat 5) none [1] [2] (js "00") none none

/-- A page opened with the fragment link of the capsule. -/
def linkPage (key : Option (List UInt8)) : Page :=
  ⟨[], 35 :: serializeParams (linkParams sampleEnvelope (js "0") (key.map btoa))⟩

section
variable {key : Option (List UInt8)} (readEnsText : JsString → JsString → Option JsString)
  (timeAt : JsValue → Result JsValue) (now : TimeValue) (newId : JsString)

theorem findImport_linkPage (hkey : key ≠ some []) :
    ∃ imp, findImport (linkPage key) readEnsText now = .ok (some (imp, none)) ∧
      imp.envelope = sampleEnvelope ∧ imp.ctrngKeyB64 = key.map btoa := by
  have hens : ensParam (linkPage key) = none := rfl
  have hparse : ∃ imp, parseFragment (linkPage key).hash now = some imp ∧
      imp.envelope = sampleEnvelope ∧ imp.ctrngKeyB64 = key.map btoa :=
    ⟨_, (parseFragment_linkParams key (blob_ne_nil (ctrngPayload (ofRat 5) none [1] [2]
      (js "00") none none)) (t := js "0") (wellFormed_ascii (by decide)) hkey now).2, rfl, rfl⟩
  obtain ⟨imp, himp, henvelope, hk⟩ := hparse
  refine ⟨imp, ?_, henvelope, hk⟩
  unfold findImport
  rw [hens, himp]
  rfl

theorem importLink_linkPage (hkey : key ≠ some []) :
    ∃ item, importLink (linkPage key) readEnsText timeAt now newId = .ok (some item) ∧
      item.envelope = sampleEnvelope ∧ item.ctrngKeyB64 = key.map btoa := by
  obtain ⟨imp, hfind, henvelope, hk⟩ := findImport_linkPage readEnsText now hkey
  have hbuild := buildItemFromImport_ctrng newId
    ((congrArg peekBackend henvelope).trans peekBackend_packCtrng)
    ((congrArg unpackCtrng henvelope).trans unpackCtrng_packCtrng)
  unfold importLink finalise
  simp only [hfind, hbuild, ok_bind]
  exact ⟨_, rfl, henvelope, hk⟩

end

theorem some_singleton_ne (b : UInt8) : (some [b] : Option (List UInt8)) ≠ some [] := by simp

/-- The queue has two items of other capsules. -/
def otherItems : List QueueItem := [sealedItem, { sealedItem with id := js "b", envelope := js "e31=" }]

theorem import_sets_key_first :
    ∃ item, importLink (linkPage (some [7])) (fun _ _ => none) .ok ⟨0, by decide⟩ (js "c") =
        .ok (some item) ∧ HasKey (insertImported otherItems item) sampleEnvelope := by
  obtain ⟨imp, hfind, henvelope, hk⟩ := findImport_linkPage (fun _ _ => none)
    ⟨0, by decide⟩ (some_singleton_ne 7)
  obtain ⟨item, himport, -, -⟩ := importLink_linkPage (fun _ _ => none) .ok
    ⟨0, by decide⟩ (js "c") (some_singleton_ne 7)
  have hothers : ∀ it ∈ otherItems, it.envelope ≠ sampleEnvelope := by decide +kernel
  exact ⟨item, himport, (import_sets_key_iff ⟨imp, none, hfind, henvelope, hk⟩ himport
    peekBackend_packCtrng otherItems).2 (Or.inl hothers)⟩

/-- The link without the key and then the link with it: the queue has the capsule without a key. -/
theorem import_leaves_keyless :
    ∃ first item, importLink (linkPage none) (fun _ _ => none) .ok ⟨0, by decide⟩ (js "a") =
        .ok (some first) ∧
      importLink (linkPage (some [7])) (fun _ _ => none) .ok ⟨0, by decide⟩ (js "b") =
        .ok (some item) ∧
      Carries (linkPage (some [7])) (fun _ _ => none) ⟨0, by decide⟩ sampleEnvelope (btoa [7]) ∧
      peekBackend sampleEnvelope = .ok .ctrng ∧
      ¬ HasKey (insertImported (insertImported [] first) item) sampleEnvelope := by
  obtain ⟨first, hfirst, henvelope, hnone⟩ := importLink_linkPage (fun _ _ => none)
    .ok ⟨0, by decide⟩ (js "a") (show (none : Option (List UInt8)) ≠ some [] by decide)
  obtain ⟨item, hitem, hsame, -⟩ := importLink_linkPage (fun _ _ => none) .ok
    ⟨0, by decide⟩ (js "b") (some_singleton_ne 7)
  obtain ⟨imp, hfind, himp, hk⟩ := findImport_linkPage (fun _ _ => none)
    ⟨0, by decide⟩ (some_singleton_ne 7)
  refine ⟨first, item, hfirst, hitem, ⟨imp, none, hfind, himp, hk⟩, peekBackend_packCtrng, ?_⟩
  have hqueue : insertImported (insertImported [] first) item = [first] := by
    have hfound : findByEnvelope [first] item.envelope = some first := by
      rw [findByEnvelope, List.find?_cons_of_pos]
      simpa using henvelope.trans hsame.symm
    have hempty : insertImported [] first = [first] := rfl
    rw [hempty, insertImported, hfound]
  rw [hqueue]
  rintro ⟨it, hit, -, hsome⟩
  rw [List.mem_singleton.1 hit, hnone] at hsome
  cases hsome

end SealedSky.Web.App
