import SealedSky.Web.Import

/-!
# The boot-time import and the URL of the page (`sealed-sky-web/src/App.tsx:66-130`)

The import of a link runs in a `try`, and its `finally` takes the fragment and `?ens=` off the URL on
every way out. An import that fails, or whose page was unmounted meanwhile, leaves the queue as it was.

* `finalise_isOk_iff` — which envelopes an item can be built from.
* `bootImport_url` — after the import of a link nothing of the link is in the URL.
* `bootImport_outcome` — the queue holds an item for the link exactly when it held one before or
  nothing failed.
-/
namespace SealedSky.Web.App

open Js Fallible

/-- share.ts:80, on the page. -/
def clearFragment (page : Page) : Page := { page with hash := [] }

/-- `url.searchParams.delete("ens")`, and the URL that is left. -/
def deleteEns (page : Page) : Page :=
  let params := (searchParams page.search).filter fun p => p.1 ≠ js "ens"
  { page with search := if params = [] then [] else 63 :: serializeParams params }

/-- The `finally` (App.tsx:116). -/
def stripLink (page : Page) : Page :=
  let cleared := clearFragment page
  if (ensParam page).isSome then deleteEns cleared else cleared

/-- What the import has come to: the URL, the queue and the error that is shown. -/
structure Booted where
  page : Page
  items : List QueueItem
  bootError : Option Thrown

/-- App.tsx:67, on the queue at the time of `setItems`. -/
def bootImport (page : Page) (items : List QueueItem)
    (readEnsText : JsString → JsString → Option JsString) (timeAt : JsValue → Result JsValue)
    (now : TimeValue) (newId : JsString) (cancelled : Bool) : Booted :=
  if (ensParam page).isNone ∧ (parseFragment page.hash now).isNone then ⟨page, items, none⟩
  else
    match importLink page readEnsText timeAt now newId with
    | .error e => ⟨stripLink page, items, some e⟩
    | .ok none => ⟨stripLink page, items, none⟩
    | .ok (some finalised) =>
      if cancelled then ⟨stripLink page, items, none⟩
      else ⟨stripLink page, insertImported items finalised, none⟩

/-! ## Links and their items -/

/-- The page was opened with a link. -/
def HasLink (page : Page) (now : TimeValue) : Prop :=
  (ensParam page).isSome = true ∨ (parseFragment page.hash now).isSome = true

/-- The envelope of a link, as far as it can be read. -/
def linkEnvelope (page : Page) (readEnsText : JsString → JsString → Option JsString)
    (now : TimeValue) : Option JsString :=
  match ensParam page with
  | some ens => nonEmpty (readEnsText ens (js "envelope"))
  | none => (parseFragment page.hash now).map ImportedItem.envelope

/-- An item with the envelope of the link, or with the name that the link gives. -/
def HoldsLink (page : Page) (readEnsText : JsString → JsString → Option JsString) (now : TimeValue)
    (items : List QueueItem) : Prop :=
  ∃ it ∈ items, linkEnvelope page readEnsText now = some it.envelope ∨
    (ensParam page).isSome = true ∧ it.capsuleEns = ensParam page

/-- `params.get(name)` of the fragment. -/
def fragmentParam (page : Page) (name : JsString) : Option JsString :=
  (fragmentParams page.hash).bind fun params => getParam params name

/-- The URL carries the same link. -/
structure SameLink (page page' : Page) : Prop where
  env : fragmentParam page' (js "env") = fragmentParam page (js "env")
  k : fragmentParam page' (js "k") = fragmentParam page (js "k")
  ens : ensParam page' = ensParam page

/-- An envelope that unpacks, for drand with a time of its round. -/
def Importable (timeAt : JsValue → Result JsValue) (envelope : JsString) : Prop :=
  (peekBackend envelope = .ok .ctrng ∧ ∃ parsed, unpackCtrng envelope = .ok parsed) ∨
    peekBackend envelope = .ok .drand ∧ ∃ parsed, unpack envelope = .ok parsed ∧
      (isUndefined parsed.round = false → ∃ unlockUnix, timeAt parsed.round = .ok unlockUnix)

/-- Every step of the import goes well, and the page stays mounted. -/
def Succeeds (page : Page) (readEnsText : JsString → JsString → Option JsString)
    (timeAt : JsValue → Result JsValue) (now : TimeValue) (cancelled : Bool) : Prop :=
  cancelled = false ∧
    ∃ envelope, linkEnvelope page readEnsText now = some envelope ∧ Importable timeAt envelope

section
variable {page : Page} {items : List QueueItem}
  {readEnsText : JsString → JsString → Option JsString} {timeAt : JsValue → Result JsValue}
  {now : TimeValue} {newId : JsString} {cancelled : Bool}

/-! ## The URL -/

theorem getParam_filter (params : List (JsString × JsString)) (name : JsString) :
    getParam (params.filter fun p => p.1 ≠ name) name = none := by
  unfold getParam
  rw [List.find?_eq_none.2 ?_]
  · rfl
  · intro p hp
    have hne := (List.mem_filter.1 hp).2
    simpa using hne

theorem ensParam_deleteEns (page : Page) : ensParam (deleteEns page) = none := by
  have hwell : ∀ p ∈ (searchParams page.search).filter fun p => p.1 ≠ js "ens",
      WellFormed p.1 ∧ WellFormed p.2 := fun p hp =>
    wellFormed_searchParams p (List.mem_filter.1 hp).1
  have hget := getParam_filter (searchParams page.search) (js "ens")
  unfold ensParam deleteEns
  simp only
  split
  · rfl
  · rw [searchParams_mark (serializeParams_head _), searchParams_serialize hwell, hget]
    rfl

theorem bootImport_of_link (hlink : HasLink page now) :
    bootImport page items readEnsText timeAt now newId cancelled =
      match importLink page readEnsText timeAt now newId with
      | .error e => ⟨stripLink page, items, some e⟩
      | .ok none => ⟨stripLink page, items, none⟩
      | .ok (some finalised) =>
        if cancelled then ⟨stripLink page, items, none⟩
        else ⟨stripLink page, insertImported items finalised, none⟩ := by
  rw [bootImport, if_neg]
  rintro ⟨hens, hfragment⟩
  rw [Option.isNone_iff_eq_none] at hens hfragment
  rcases hlink with h | h
  · rw [hens] at h
    cases h
  · rw [hfragment] at h
    cases h

/-- **After the import of a link nothing of it is in the URL.** -/
theorem bootImport_url (hlink : HasLink page now) :
    fragmentParam (bootImport page items readEnsText timeAt now newId cancelled).page (js "env") =
        none ∧
      fragmentParam (bootImport page items readEnsText timeAt now newId cancelled).page (js "k") =
        none ∧
      ensParam (bootImport page items readEnsText timeAt now newId cancelled).page = none := by
  have hpage : (bootImport page items readEnsText timeAt now newId cancelled).page =
      stripLink page := by
    rw [bootImport_of_link hlink]
    split
    · rfl
    · rfl
    · split <;> rfl
  have hhash : (stripLink page).hash = [] := by
    unfold stripLink
    split <;> rfl
  rw [hpage]
  unfold fragmentParam
  rw [hhash]
  refine ⟨rfl, rfl, ?_⟩
  unfold stripLink
  by_cases hens : (ensParam page).isSome = true
  · rw [if_pos hens]
    exact ensParam_deleteEns _
  · rw [if_neg hens]
    exact Option.not_isSome_iff_eq_none.1 hens

/-! ## The queue -/

/-- **An item is built** exactly from an envelope that unpacks, for drand with a time of its round. -/
theorem finalise_isOk_iff (imp : ImportedItem) (capsuleEns : Option JsString)
    (timeAt : JsValue → Result JsValue) (newId : JsString) :
    (∃ item, finalise imp capsuleEns timeAt newId = .ok item) ↔ Importable timeAt imp.envelope := by
  unfold finalise buildItemFromImport Importable
  cases hpeek : peekBackend imp.envelope with
  | error e => simp
  | ok backend =>
    cases backend with
    | ctrng =>
      cases hunpack : unpackCtrng imp.envelope with
      | error e => simp
      | ok parsed => simp [importedUnlock]
    | drand =>
      cases hunpack : unpack imp.envelope with
      | error e => simp
      | ok parsed =>
        cases hround : isUndefined parsed.round with
        | true => simp [importedUnlock, hround]
        | false =>
          cases htime : timeAt parsed.round with
          | error e => simp [importedUnlock, hround, htime]
          | ok unlockUnix => simp [importedUnlock, hround, htime]

theorem findImport_of_linkEnvelope {envelope : JsString}
    (h : linkEnvelope page readEnsText now = some envelope) :
    ∃ imp ens, findImport page readEnsText now = .ok (some (imp, ens)) ∧ imp.envelope = envelope := by
  unfold linkEnvelope at h
  unfold findImport
  cases hens : ensParam page with
  | some ens =>
    rw [hens] at h
    simp only at h
    simp only [fetchCapsuleByEns, h, bind, Option.bind]
    exact ⟨_, _, rfl, rfl⟩
  | none =>
    rw [hens] at h
    obtain ⟨imp, himp, henvelope⟩ := Option.map_eq_some_iff.1 h
    simp only [himp, Option.map_some]
    exact ⟨imp, none, rfl, henvelope⟩

/-- A link without an envelope that can be read. -/
theorem findImport_of_none (hlink : HasLink page now)
    (h : linkEnvelope page readEnsText now = none) :
    ∃ e, findImport page readEnsText now = .error e := by
  unfold linkEnvelope at h
  unfold findImport
  cases hens : ensParam page with
  | some ens =>
    rw [hens] at h
    simp only at h
    simp only [fetchCapsuleByEns, h, bind, Option.bind]
    exact ⟨_, rfl⟩
  | none =>
    rw [hens] at h
    have hnone : parseFragment page.hash now = none := Option.map_eq_none_iff.1 h
    rcases hlink with hlink | hlink
    · rw [hens] at hlink
      cases hlink
    · rw [hnone] at hlink
      cases hlink

/-- **The item of a link** has its envelope. -/
theorem importLink_cases (readEnsText : JsString → JsString → Option JsString)
    (timeAt : JsValue → Result JsValue) (newId : JsString) (hlink : HasLink page now) :
    (∃ item, importLink page readEnsText timeAt now newId = .ok (some item) ∧
        linkEnvelope page readEnsText now = some item.envelope ∧
        Importable timeAt item.envelope) ∨
      (∃ e, importLink page readEnsText timeAt now newId = .error e) ∧
        ¬ ∃ envelope, linkEnvelope page readEnsText now = some envelope ∧
          Importable timeAt envelope := by
  unfold importLink
  cases henvelope : linkEnvelope page readEnsText now with
  | none =>
    obtain ⟨e, he⟩ := findImport_of_none hlink henvelope
    rw [he]
    refine Or.inr ⟨⟨e, rfl⟩, ?_⟩
    rintro ⟨envelope, h, -⟩
    cases h
  | some envelope =>
    obtain ⟨imp, ens, hfind, rfl⟩ := findImport_of_linkEnvelope henvelope
    rw [hfind]
    cases hfinal : finalise imp ens timeAt newId with
    | ok item =>
      have hitem := (finalise_cases hfinal).2.1
      refine Or.inl ⟨item, ?_, by rw [hitem], ?_⟩
      · simp only [ok_bind, hfinal]
        rfl
      · rw [hitem]
        exact (finalise_isOk_iff imp ens timeAt newId).1 ⟨item, hfinal⟩
    | error e =>
      refine Or.inr ⟨⟨e, ?_⟩, ?_⟩
      · simp only [ok_bind, hfinal]
        rfl
      · rintro ⟨envelope, h, himportable⟩
        cases h
        obtain ⟨item, hitem⟩ := (finalise_isOk_iff imp ens timeAt newId).2 himportable
        rw [hfinal] at hitem
        cases hitem

/-- The queue has the envelope of what was inserted. -/
theorem insertImported_holds (items : List QueueItem) (item : QueueItem) :
    ∃ it ∈ insertImported items item, it.envelope = item.envelope := by
  unfold insertImported
  cases hfound : findByEnvelope items item.envelope with
  | some it =>
    have heq : it.envelope = item.envelope := by simpa using List.find?_some hfound
    exact ⟨it, List.mem_of_find?_eq_some hfound, heq⟩
  | none => exact ⟨item, by simp, rfl⟩

/-- **What has become of a link** when its import has ended: nothing of it is in the URL, and the
queue holds an item for it exactly when it held one before or nothing failed. -/
theorem bootImport_outcome (hlink : HasLink page now) :
    (fragmentParam (bootImport page items readEnsText timeAt now newId cancelled).page (js "env") =
        none ∧
      fragmentParam (bootImport page items readEnsText timeAt now newId cancelled).page (js "k") =
        none ∧
      ensParam (bootImport page items readEnsText timeAt now newId cancelled).page = none) ∧
    (HoldsLink page readEnsText now
        (bootImport page items readEnsText timeAt now newId cancelled).items ↔
      HoldsLink page readEnsText now items ∨
        Succeeds page readEnsText timeAt now cancelled) ∧
    (¬ Succeeds page readEnsText timeAt now cancelled →
      (bootImport page items readEnsText timeAt now newId cancelled).items = items) := by
  refine ⟨bootImport_url hlink, ?_⟩
  rw [bootImport_of_link hlink]
  obtain ⟨item, himport, henvelope, himportable⟩ | ⟨⟨e, himport⟩, hfailed⟩ :=
    importLink_cases readEnsText timeAt newId hlink
  · rw [himport]
    cases cancelled with
    | true =>
      have hfailed : ¬ Succeeds page readEnsText timeAt now true := fun h => by cases h.1
      simp [hfailed]
    | false =>
      have hsucceeds : Succeeds page readEnsText timeAt now false :=
        ⟨rfl, item.envelope, henvelope, himportable⟩
      obtain ⟨it, hit, heq⟩ := insertImported_holds items item
      refine ⟨iff_of_true ⟨it, hit, Or.inl ?_⟩ (Or.inr hsucceeds), absurd hsucceeds⟩
      rw [henvelope, heq]
  · rw [himport]
    have hfailed : ¬ Succeeds page readEnsText timeAt now cancelled := fun h => hfailed h.2
    simp [hfailed]

end

theorem hasLink_of_findImport {page : Page} {readEnsText : JsString → JsString → Option JsString}
    {now : TimeValue} {found : ImportedItem × Option JsString}
    (h : findImport page readEnsText now = .ok (some found)) : HasLink page now := by
  unfold findImport at h
  split at h
  · rename_i ens hens
    exact Or.inl (by rw [hens]; rfl)
  · obtain ⟨imp, himp, -⟩ := Option.map_eq_some_iff.1 (Except.ok.inj h)
    exact Or.inr (by rw [himp]; rfl)

/-- The fragment link of a capsule with its key. -/
theorem bootImport_linkPage :
    HoldsLink (linkPage (some [7])) (fun _ _ => none) ⟨0, by decide⟩
      (bootImport (linkPage (some [7])) [] (fun _ _ => none) .ok ⟨0, by decide⟩ (js "a")
        false).items := by
  obtain ⟨imp, hfind, -, -⟩ := findImport_linkPage (fun _ _ => none) ⟨0, by decide⟩
    (some_singleton_ne 7)
  have hlink := hasLink_of_findImport hfind
  obtain ⟨item, himport, -, -⟩ := importLink_linkPage (fun _ _ => none) .ok
    ⟨0, by decide⟩ (js "a") (some_singleton_ne 7)
  refine (bootImport_outcome hlink).2.1.2 (Or.inr ?_)
  obtain ⟨item', -, henvelope, himportable⟩ | ⟨⟨e, he⟩, -⟩ :=
    importLink_cases (fun _ _ => none) .ok (js "a") hlink
  · exact ⟨rfl, item'.envelope, henvelope, himportable⟩
  · rw [himport] at he
    cases he

/-- A link with a name and a key. -/
def giftPage : Page := ⟨js "?ens=gift.eth", js "#k=AQ"⟩

/-- A text record that cannot be read leaves neither an item nor the link. -/
theorem failed_import_lost :
    HasLink giftPage ⟨0, by decide⟩ ∧
      ¬ (HoldsLink giftPage (fun _ _ => none) ⟨0, by decide⟩
            (bootImport giftPage [] (fun _ _ => none) .ok ⟨0, by decide⟩ (js "a") false).items ∨
          SameLink giftPage
            (bootImport giftPage [] (fun _ _ => none) .ok ⟨0, by decide⟩ (js "a") false).page) := by
  have hlink : HasLink giftPage ⟨0, by decide⟩ := Or.inl (by decide +kernel)
  refine ⟨hlink, ?_⟩
  rintro (⟨it, hit, -⟩ | hsame)
  · have hitems : (bootImport giftPage [] (fun _ _ => none) .ok ⟨0, by decide⟩ (js "a")
        false).items = [] := rfl
    rw [hitems] at hit
    cases hit
  · have hk := hsame.k
    rw [(bootImport_url hlink).2.1] at hk
    exact absurd hk (by decide +kernel)

end SealedSky.Web.App
