import SealedSky.Backend.ReadBack
import SealedSky.Web.Addressing

/-!
# Capsules under ENS names (`sealed-sky-web/src/lib/namestone.ts`, `src/App.tsx:144-174`)

After sealing, a capsule is published in the background: its envelope and its times become the text
records of a new name, and from then on its link is that name. The label of the name is random, so a
later capsule, or the published history of the backend, may replace the records.

* `ensParam_named` — the name and the key in a link are read back.
* `published_carried_iff` — the item of such a link is the sealed one exactly when there are no names
  and the round or target sequence is a number of JSON; the time is always carried.
-/
namespace SealedSky.Web.App

open Js Fallible
open SealedSky.Backend (SetName Fetched isOkStatus detailOf printNat)

/-- namestone.ts:17. -/
structure NameStoneConfig where
  apiKey : JsString
  domain : JsString

def DEFAULT_OWNER : JsString := js "0x000000000000000000000000000000000000dEaD"

def isNameStoneConfigured (config : NameStoneConfig) : Bool :=
  !config.apiKey.isEmpty && !config.domain.isEmpty

/-- namestone.ts:27, of four random bytes. -/
def generateCapsuleLabel (bytes : List UInt8) : JsString := js "cap-" ++ hexText bytes

/-- namestone.ts:34. -/
structure PublishCapsuleArgs where
  label : JsString
  ownerAddress : Option JsString
  textRecords : List (JsString × JsString)

/-- The body of the request. An owner that is no address is replaced. -/
def setNameBody (config : NameStoneConfig) (args : PublishCapsuleArgs) : SetName where
  domain := config.domain
  name := args.label
  address := (args.ownerAddress.filter (js "0x").isPrefixOf).getD DEFAULT_OWNER
  textRecords := args.textRecords

/-- namestone.ts:44. -/
def publishCapsule (config : NameStoneConfig) (args : PublishCapsuleArgs)
    (setName : SetName → Fetched) : Result JsString :=
  if isNameStoneConfigured config then
    match setName (setNameBody config args) with
    | .failed => .error .engine
    | .response status statusText text =>
      if isOkStatus status then .ok (args.label ++ 46 :: config.domain)
      else .error (.error (js "NameStone set-name HTTP " ++ printNat status ++ js ": " ++
        detailOf statusText text))
  else .error (.error (js "NameStone not configured (VITE_NAMESTONE_API_KEY / " ++
    js "VITE_NAMESTONE_DOMAIN missing)"))

/-- A record, where there is a name for it. -/
def nameRecord (key : JsString) (name : Option JsString) : List (JsString × JsString) :=
  (nonEmpty name).toList.map fun s => (key, s)

/-- `records` (App.tsx:149). -/
def capsuleRecords (item : QueueItem) : Result (List (JsString × JsString)) := do
  let unlockUnix ← ofEngine item.unlockUnix.toText
  let createdAt ← ofEngine item.createdAt.toText
  .ok ([(js "envelope", item.envelope), (js "unlock_unix", unlockUnix),
      (js "backend", item.backend.text), (js "created_at", createdAt)] ++
    nameRecord (js "sender_ens") item.senderEns ++ nameRecord (js "recipient_ens") item.recipientEns)

/-- What is asked of `publishCapsule` for an item. -/
def publishArgs (bytes : List UInt8) (item : QueueItem) (ownerAddress : Option JsString) :
    Result PublishCapsuleArgs := do
  let textRecords ← capsuleRecords item
  .ok { label := generateCapsuleLabel bytes, ownerAddress, textRecords }

/-- `e instanceof Error ? e.message : String(e)`, with the text of what the engine throws. -/
def Thrown.message (engine : JsString) : Thrown → JsString
  | .engine => engine
  | .error message => message

/-- App.tsx:146, up to `updateItem`: the name, or the message of what was thrown. -/
def publishToNameStone (config : NameStoneConfig) (bytes : List UInt8) (item : QueueItem)
    (ownerAddress : Option JsString) (setName : SetName → Fetched) (engine : JsString) :
    Option (Except JsString JsString) :=
  if isNameStoneConfigured config then
    some ((publishArgs bytes item ownerAddress >>= fun args =>
      publishCapsule config args setName).mapError (Thrown.message engine))
  else none

/-! ## What ENS shows -/

/-- The text records of each name. -/
abbrev EnsRecords := JsString → Option (List (JsString × JsString))

def fullName (request : SetName) : JsString := request.name ++ 46 :: request.domain

/-- NameStone, by the requests that it has accepted: each replaces the records of its name. -/
def nameStone : Lts EnsRecords SetName :=
  ⟨fun _ => none, fun rows request =>
    some (Function.update rows (fullName request) (some request.textRecords))⟩

/-- ens.ts:47, where nothing is cached yet. A name that `normalize` does not take is caught. -/
def readEnsText (rows : EnsRecords) (normalize : JsString → Option JsString)
    (name key : JsString) : Option JsString := do
  let records ← rows (← normalize name)
  getParam records key

/-- What a request writes under a name. -/
def recordsFor (name : JsString) (request : SetName) : Option (List (JsString × JsString)) :=
  if fullName request = name then some request.textRecords else none

/-- **The records of a name** are those of the last request for it. -/
theorem nameStone_run {rows rows' : EnsRecords} {before after : List SetName} {request : SetName}
    (hrun : nameStone.run rows (before ++ request :: after) = some rows')
    (hkept : ∀ r ∈ after, fullName r ≠ fullName request) :
    rows' (fullName request) = some request.textRecords := by
  have hown : ∀ s r t x, nameStone.step s r = some t →
      recordsFor (fullName request) r = some x → t (fullName request) = some x := by
    intro s r t x hstep hmine
    obtain ⟨hname, hx⟩ := Option.ite_none_right_eq_some.1 hmine
    cases hstep
    rw [← hname, Function.update_self, ← Option.some.inj hx]
  have hforeign : ∀ s r t, nameStone.step s r = some t →
      recordsFor (fullName request) r = none → t (fullName request) = s (fullName request) := by
    intro s r t hstep hmine
    have hname : fullName r ≠ fullName request := by
      intro hname
      rw [recordsFor, if_pos hname] at hmine
      cases hmine
    cases hstep
    exact Function.update_of_ne (Ne.symm hname) _ _
  have hview : rows' (fullName request) =
      ((before ++ request :: after).filterMap (recordsFor (fullName request))).foldl
        (fun _ records => some records) (rows (fullName request)) :=
    Lts.run_view hown hforeign hrun
  have hafter : after.filterMap (recordsFor (fullName request)) = [] := by
    rw [List.filterMap_eq_nil_iff]
    intro r hr
    rw [recordsFor, if_neg (hkept r hr)]
  have hself : recordsFor (fullName request) request = some request.textRecords := if_pos rfl
  rw [hview, List.filterMap_append, List.filterMap_cons_some hself, hafter, List.foldl_append,
    List.foldl_cons, List.foldl_nil]

/-! ## The link of a name -/

/-- `location.search` of a page with this URL. What `encodeURIComponent` writes stands in it as it is,
but for an apostrophe. -/
def searchOf (url : JsString) : JsString :=
  match (url.takeWhile fun u => u != 35).dropWhile fun u => u != 63 with
  | [_] => []
  | query => escapeApostrophe query

def pageOf (url : JsString) : Page := ⟨searchOf url, hashOf url⟩

/-- The letters of a key stand for themselves. -/
theorem queryByte_b64 : ∀ n < 64, ∀ u ∈ replaceUnit 47 95 (replaceUnit 43 45 [b64Unit n]),
    u.toNat < 0x80 ∧ asciiText (queryByte (UInt8.ofNat u.toNat)) = [u] := by decide +kernel

theorem component_b64 (bs : List UInt8) :
    asciiText ((utf8 (b64UrlEncode (btoa bs))).flatMap queryByte) = b64UrlEncode (btoa bs) := by
  have hletter : ∀ u ∈ b64UrlEncode (btoa bs),
      u.toNat < 0x80 ∧ asciiText (queryByte (UInt8.ofNat u.toNat)) = [u] := by
    intro u hu
    rw [b64UrlEncode_btoa] at hu
    obtain ⟨v, hv, rfl⟩ := List.mem_map.1 hu
    obtain ⟨w, hw, rfl⟩ := List.mem_map.1 hv
    obtain ⟨n, hn, rfl⟩ := mem_b64Units hw
    exact queryByte_b64 n hn _ (List.mem_singleton_self _)
  generalize b64UrlEncode (btoa bs) = s at hletter
  have hbytes : asciiText (s.map fun u => UInt8.ofNat u.toNat) = s := by
    rw [asciiText, List.map_map]
    refine (List.map_congr_left fun u hu => ?_).trans (List.map_id s)
    have hlt := (hletter u hu).1
    refine UInt16.toNat_inj.1 ?_
    simp only [Function.comp_apply, UInt8.toNat_ofNat', UInt16.toNat_ofNat', id_eq]
    omega
  have hutf8 : utf8 s = s.map fun u => UInt8.ofNat u.toNat := by
    have hsmall : ∀ b ∈ s.map (fun u => UInt8.ofNat u.toNat), b.toNat < 0x80 := by
      intro b hb
      obtain ⟨u, hu, rfl⟩ := List.mem_map.1 hb
      have hlt := (hletter u hu).1
      rw [UInt8.toNat_ofNat']
      omega
    rw [← utf8_asciiText hsmall, hbytes]
  rw [hutf8]
  clear hutf8 hbytes
  induction s with
  | nil => rfl
  | cons u s ih =>
    rw [List.map_cons, List.flatMap_cons, asciiText, List.map_append, ← asciiText, ← asciiText,
      (hletter u List.mem_cons_self).2, ih fun v hv => hletter v (List.mem_cons_of_mem u hv),
      List.singleton_append]

theorem searchOf_named {base t rest : JsString} (hbase : 35 ∉ base ∧ 63 ∉ base)
    (ht : ∀ u ∈ t, u ≠ 35 ∧ u ≠ 63) (hrest : rest = [] ∨ rest.head? = some 35) :
    searchOf (base ++ js "?ens=" ++ t ++ rest) = 63 :: (js "ens" ++ 61 :: escapeApostrophe t) := by
  have hplain : ∀ u ∈ base ++ js "?ens=" ++ t, (u != 35) = true := by
    intro u hu
    rw [bne_iff_ne]
    rcases List.mem_append.1 hu with hu | hu
    · rcases List.mem_append.1 hu with hu | hu
      · rintro rfl
        exact hbase.1 hu
      · rintro rfl
        exact absurd hu (by decide)
    · exact (ht u hu).1
  have hstop : rest.takeWhile (fun u => u != 35) = [] := by
    rcases hrest with rfl | hrest
    · rfl
    · obtain ⟨r, rfl⟩ : ∃ r, rest = 35 :: r := by
        cases rest with
        | nil => cases hrest
        | cons u r => exact ⟨r, by rw [Option.some.inj hrest]⟩
      exact List.takeWhile_cons_of_neg (by simp)
  have hmark : ∀ u ∈ base, (u != 63) = true := by
    intro u hu
    rw [bne_iff_ne]
    rintro rfl
    exact hbase.2 hu
  have hquery : (base ++ js "?ens=" ++ t).dropWhile (fun u => u != 63) = js "?ens=" ++ t := by
    rw [List.append_assoc, List.dropWhile_append_of_pos hmark]
    exact List.dropWhile_cons_of_neg (by decide)
  unfold searchOf
  rw [List.takeWhile_append_of_pos hplain, hstop, List.append_nil, hquery]
  rfl

/-- **The name and the key of a link are read back.** -/
theorem ensParam_named {location : Location} (hbase : 63 ∉ location.base) {item : QueueItem}
    {ens : JsString} {key : Option (List UInt8)} (hens : item.capsuleEns = some ens) (hne : ens ≠ [])
    (hwell : WellFormed ens) (hshare : shareKey item = key.map btoa) (hkey : key ≠ some []) :
    ∃ url, buildShareUrl location item = .ok url ∧ ensParam (pageOf url) = some ens ∧
      readKeyFragment (pageOf url).hash = key.map btoa := by
  obtain ⟨t, ht, hplain, hescaped⟩ := encodeURIComponent_wellFormed hwell
  have hname : nonEmpty item.capsuleEns = some ens := by rw [hens, nonEmpty_some hne]
  have hparam : ∀ rest, rest = [] ∨ rest.head? = some 35 →
      ensParam (pageOf (location.base ++ js "?ens=" ++ t ++ rest)) = some ens := by
    intro rest hrest
    have hsearch : searchParams (searchOf (location.base ++ js "?ens=" ++ t ++ rest)) =
        [(js "ens", ens)] := by
      have hhead : (js "ens" ++ 61 :: asciiText ((utf8 ens).flatMap queryByte)).head? ≠ some 63 := by
        have hfirst : js "ens" = 101 :: js "ns" := by decide
        rw [hfirst, List.cons_append, List.head?_cons]
        decide
      rw [searchOf_named ⟨location.no_hash, hbase⟩ hplain hrest, hescaped, searchParams_mark hhead]
      exact searchParams_component (wellFormed_ascii (by decide)) (by decide) (by decide +kernel)
        (by decide +kernel) hwell
    have hget : getParam [(js "ens", ens)] (js "ens") = some ens := rfl
    rw [ensParam, pageOf, hsearch, hget, nonEmpty_some hne]
  have hhash : 35 ∉ location.base ++ js "?ens=" ++ t := by
    intro hmem
    rcases List.mem_append.1 hmem with hmem | hmem
    · rcases List.mem_append.1 hmem with hmem | hmem
      · exact location.no_hash hmem
      · exact absurd hmem (by decide)
    · exact (hplain _ hmem).1 rfl
  cases key with
  | none =>
    refine ⟨location.base ++ js "?ens=" ++ t, ?_, ?_, ?_⟩
    · unfold buildShareUrl
      simp only [hname, ht, hshare, Option.map_none]
      rfl
    · have hbare := hparam [] (Or.inl rfl)
      rwa [List.append_nil] at hbare
    · have hnone : hashOf (location.base ++ js "?ens=" ++ t) = [] := by
        have hdrop : (location.base ++ js "?ens=" ++ t).dropWhile (fun u => u != 35) = [] := by
          rw [List.dropWhile_eq_nil_iff]
          intro u hu
          rw [bne_iff_ne]
          rintro rfl
          exact hhash hu
        rw [hashOf, hdrop]
      rw [pageOf, readKeyFragment, hnone]
      rfl
  | some kb =>
    have hkb : kb ≠ [] := fun h => hkey (congrArg some h)
    refine ⟨location.base ++ js "?ens=" ++ t ++ 35 :: (js "k" ++ 61 :: b64UrlEncode (btoa kb)),
      ?_, hparam _ (Or.inr rfl), ?_⟩
    · unfold buildShareUrl
      simp only [hname, ht, hshare, Option.map_some]
      simp only [ofEngine, ok_bind]
      rw [List.append_assoc _ (js "#k=") _]
      rfl
    · have hfragment := hashOf_fragment ⟨location.base ++ js "?ens=" ++ t, hhash⟩
        (s := js "k" ++ 61 :: b64UrlEncode (btoa kb)) (List.cons_ne_nil _ _)
      have hwellKey : WellFormed (b64UrlEncode (btoa kb)) := wellFormed_ascii (ascii_b64UrlEncode kb)
      have hparams : searchParams (js "k" ++ 61 :: b64UrlEncode (btoa kb)) =
          [(js "k", b64UrlEncode (btoa kb))] := by
        have hname : WellFormed (js "k") := wellFormed_ascii (by decide)
        have hcomponent := searchParams_component hname (by decide) (by decide +kernel)
          (by decide +kernel) hwellKey
        rwa [component_b64] at hcomponent
      have hget : getParam [(js "k", b64UrlEncode (btoa kb))] (js "k") =
        some (b64UrlEncode (btoa kb)) := rfl
      have hraw : fragmentParams (35 :: (js "k" ++ 61 :: b64UrlEncode (btoa kb))) =
          some (searchParams (js "k" ++ 61 :: b64UrlEncode (btoa kb))) := rfl
      rw [pageOf, readKeyFragment, hfragment, hraw, hparams, Option.bind_some, keyOf, hget,
        nonEmpty_some (b64UrlEncode_ne_nil hkb), Option.map_some, b64UrlDecode_encode,
        Option.map_some]

/-! ## What is imported -/

/-- The link of a published item is imported as an item that looks the same, under the same name. -/
def CarriedByName (location : Location) (item : QueueItem)
    (readText : JsString → JsString → Option JsString) (timeAt : JsValue → Result JsValue)
    (now' : TimeValue) (id' : JsString) : Prop :=
  ∃ url reopened, buildShareUrl location item = .ok url ∧
    importLink (pageOf url) readText timeAt now' id' = .ok (some reopened) ∧
    reopened.header = item.header ∧ reopened.capsuleEns = item.capsuleEns

/-- The time of sealing is read back from its text, whatever the clock. -/
theorem created_read (now : TimeValue) : ∃ t, (JsValue.num (secondsOf now)).toText = some t ∧
    t ≠ [] ∧ parseInt t = secondsOf now := by
  by_cases h : 0 ≤ now.ms
  · obtain ⟨x, m, hx, hm, hlt⟩ := secondsOf_whole h
    obtain ⟨hdigits, hparse⟩ := parseInt_toString hm hlt
    refine ⟨Js.toString (.fin x), ?_, ?_, ?_⟩
    · rw [hx, JsValue.toText_num]
    · intro hnil
      rw [hnil] at hdigits
      cases hdigits
    · rw [hparse, hx]
  · obtain ⟨x, m, hx, hm, hpos, hlt⟩ := secondsOf_negative (not_le.1 h)
    have hparse := parseInt_toString_neg hm hpos hlt
    refine ⟨Js.toString (.fin x), ?_, ?_, ?_⟩
    · rw [hx, JsValue.toText_num]
    · intro hnil
      rw [hnil] at hparse
      cases hparse
    · rw [hparse, hx]

section
variable {config : NameStoneConfig} {bytes : List UInt8} {owner : Option JsString}
  {args : PublishCapsuleArgs} {setName : SetName → Fetched} {engine fqn : JsString}
  {item it : QueueItem}

/-- A publish that went through. -/
theorem publishToNameStone_ok
    (h : publishToNameStone config bytes item owner setName engine = some (.ok fqn)) :
    ∃ args, publishArgs bytes item owner = .ok args ∧
      fqn = fullName (setNameBody config args) := by
  unfold publishToNameStone at h
  split at h
  · rename_i hconfigured
    cases hargs : publishArgs bytes item owner with
    | error e =>
      rw [hargs] at h
      cases h
    | ok args =>
      refine ⟨args, rfl, ?_⟩
      rw [hargs, ok_bind, publishCapsule, if_pos hconfigured] at h
      cases hreply : setName (setNameBody config args) with
      | failed =>
        rw [hreply] at h
        cases h
      | response status statusText text =>
        rw [hreply] at h
        simp only at h
        split at h
        · cases h
          rfl
        · cases h
  · cases h

/-- The records that an import reads. -/
theorem publishArgs_reads {now : TimeValue} (hcreated : item.createdAt = .num (secondsOf now))
    (henvelope : item.envelope ≠ []) (hargs : publishArgs bytes item owner = .ok args) :
    args.label = generateCapsuleLabel bytes ∧
      nonEmpty (getParam args.textRecords (js "envelope")) = some item.envelope ∧
      (nonEmpty (getParam args.textRecords (js "created_at"))).map parseInt =
        some (secondsOf now) := by
  obtain ⟨records, hrecords, hargs⟩ := bind_eq_ok.1 hargs
  cases hargs
  obtain ⟨unlockUnix, -, hrecords⟩ := bind_eq_ok.1 hrecords
  obtain ⟨createdAt, ht, hrecords⟩ := bind_eq_ok.1 hrecords
  cases hrecords
  obtain ⟨t, htext, hne, hparse⟩ := created_read now
  rw [hcreated, htext] at ht
  cases ht
  have hread : getParam ([(js "envelope", item.envelope), (js "unlock_unix", unlockUnix),
      (js "backend", item.backend.text), (js "created_at", createdAt)] ++
        nameRecord (js "sender_ens") item.senderEns ++
          nameRecord (js "recipient_ens") item.recipientEns) (js "created_at") =
            some createdAt := rfl
  refine ⟨rfl, nonEmpty_some henvelope, ?_⟩
  rw [hread, nonEmpty_some hne, Option.map_some, hparse]

theorem wellFormed_capsuleLabel (bytes : List UInt8) : WellFormed (generateCapsuleLabel bytes) := by
  have hdigit : ∀ u ∈ js "0123456789abcdef", u.toNat < 0x80 := by decide
  have hhead : ∀ u ∈ js "cap-", u.toNat < 0x80 := by decide
  refine wellFormed_ascii fun u hu => ?_
  rcases List.mem_append.1 hu with hu | hu
  · exact hhead u hu
  · exact hdigit u (mem_hexText hu)

/-- What the link of a published item is imported as. -/
theorem importLink_named {location : Location} {rows : EnsRecords}
    {normalize : JsString → Option JsString} (timeAt : JsValue → Result JsValue)
    {now : TimeValue} (now' : TimeValue) (id' : JsString) {key : Option (List UInt8)}
    (hbase : 63 ∉ location.base) (hwell : WellFormed config.domain)
    (hargs : publishArgs bytes item owner = .ok args)
    (hcreated : item.createdAt = .num (secondsOf now)) (henvelope : item.envelope ≠ [])
    (hnormal : normalize (fullName (setNameBody config args)) =
      some (fullName (setNameBody config args)))
    (hrows : rows (fullName (setNameBody config args)) = some args.textRecords)
    (hens : it.capsuleEns = some (fullName (setNameBody config args)))
    (hshare : shareKey it = key.map btoa) (hkey : key ≠ some []) :
    ∃ url imp, buildShareUrl location it = .ok url ∧ imp.envelope = item.envelope ∧
      imp.ctrngKeyB64 = key.map btoa ∧ imp.createdAt = secondsOf now ∧
      importLink (pageOf url) (readEnsText rows normalize) timeAt now' id' =
        (finalise imp it.capsuleEns timeAt id').map some := by
  obtain ⟨hlabel, henv, htime⟩ := publishArgs_reads hcreated henvelope hargs
  have hne : fullName (setNameBody config args) ≠ [] := by
    intro hnil
    exact absurd hnil (List.append_ne_nil_of_right_ne_nil _ (List.cons_ne_nil _ _))
  have hwellName : WellFormed (fullName (setNameBody config args)) := by
    have hdot : WellFormed (46 :: config.domain) :=
      .unit (by decide) (by decide) hwell
    have happend := (wellFormed_capsuleLabel bytes).append hdot
    rwa [← hlabel] at happend
  obtain ⟨url, hurl, hparam, hfragment⟩ := ensParam_named hbase hens hne hwellName hshare hkey
  have hread : ∀ k, readEnsText rows normalize (fullName (setNameBody config args)) k =
      getParam args.textRecords k := by
    intro k
    simp only [readEnsText, hnormal, hrows, Option.bind_eq_bind, Option.bind_some]
  refine ⟨url, ⟨item.envelope, secondsOf now, key.map btoa⟩, hurl, rfl, rfl, rfl, ?_⟩
  unfold importLink findImport fetchCapsuleByEns
  simp only [hparam, hread, henv, htime, Option.bind_eq_bind, Option.bind_some, Option.getD_some,
    hfragment, ok_bind, hens]

/-- What is imported under a name keeps the name. -/
theorem finalise_capsuleEns {imp : ImportedItem} {capsuleEns : Option JsString}
    {timeAt : JsValue → Result JsValue} {id' : JsString} {reopened : QueueItem}
    (h : finalise imp capsuleEns timeAt id' = .ok reopened) : reopened.capsuleEns = capsuleEns := by
  obtain ⟨draft, -, h⟩ := bind_eq_ok.1 h
  obtain ⟨unlockUnix, -, h⟩ := bind_eq_ok.1 h
  cases h
  rfl

theorem carriedByName_iff {location : Location} {readText : JsString → JsString → Option JsString}
    {timeAt : JsValue → Result JsValue} {now' : TimeValue} {id' url : JsString} {imp : ImportedItem}
    (hurl : buildShareUrl location it = .ok url)
    (himport : importLink (pageOf url) readText timeAt now' id' =
      (finalise imp it.capsuleEns timeAt id').map some) :
    CarriedByName location it readText timeAt now' id' ↔
      ∃ reopened, finalise imp it.capsuleEns timeAt id' = .ok reopened ∧
        reopened.header = it.header := by
  constructor
  · rintro ⟨url', reopened, hurl', himport', hheader, -⟩
    rw [hurl] at hurl'
    cases hurl'
    rw [himport] at himport'
    cases hfinal : finalise imp it.capsuleEns timeAt id' with
    | error e =>
      rw [hfinal] at himport'
      cases himport'
    | ok reopened' =>
      rw [hfinal] at himport'
      cases himport'
      exact ⟨reopened, rfl, hheader⟩
  · rintro ⟨reopened, hfinal, hheader⟩
    refine ⟨url, reopened, hurl, ?_, hheader, finalise_capsuleEns hfinal⟩
    rw [himport, hfinal]
    rfl

/-- What a link takes from a sealed item, also from one that was updated since. -/
theorem sealedItem_link {A : AesGcm} {timeAt : JsValue → Result JsValue} {now : TimeValue}
    {senderEns recipientEns : Option JsString}
    (h : SealedItem A timeAt now senderEns recipientEns item) (hitem : it.header = item.header) :
    item.createdAt = .num (secondsOf now) ∧ item.envelope ≠ [] ∧
      ∃ key, shareKey it = key.map btoa ∧ it.ctrngKeyB64 = key.map btoa ∧ key ≠ some [] := by
  cases h with
  | drand htime =>
    have hshare : shareKey it = none := by
      have hbackend : it.backend = .drand := congrArg Header.backend hitem
      rw [shareKey, hbackend]
      rfl
    exact ⟨rfl, btoa_ne_nil (blob_ne_nil _), none, hshare, congrArg Header.key hitem,
      fun h => by cases h⟩
  | ctrng h =>
    obtain ⟨sealed, hsealed, rfl⟩ := sealCtrng_cases h
    obtain ⟨hkey, hsealedKey, -, -⟩ := symSeal_cases hsealed
    have hne : sealed.key ≠ [] := hsealedKey.symm ▸ hkey
    have hshare := shareKey_ctrng (congrArg Header.backend hitem) (congrArg Header.key hitem) hne
    exact ⟨rfl, btoa_ne_nil (blob_ne_nil _), some sealed.key, hshare, congrArg Header.key hitem,
      fun h => hne (Option.some.inj h)⟩

/-- What is imported of a sealed item looks the same, but for its names and what JSON does not have. -/
theorem finalise_header_iff {A : AesGcm} {timeAt : JsValue → Result JsValue} {now : TimeValue}
    {senderEns recipientEns capsuleEns : Option JsString} {imp : ImportedItem} {id' : JsString}
    (h : SealedItem A timeAt now senderEns recipientEns item) (hitem : it.header = item.header)
    (henv : imp.envelope = it.envelope) (hkey : imp.ctrngKeyB64 = it.ctrngKeyB64) :
    (∃ reopened, finalise imp capsuleEns timeAt id' = .ok reopened ∧
        reopened.header = it.header) ↔
      senderEns = none ∧ recipientEns = none ∧ imp.createdAt = secondsOf now ∧
        ∀ x, item.round = .num x ∨ item.ctrngTargetSequence = .num x → x.isFinite = true := by
  cases h with
  | @drand round actualUnlock ct id htime =>
    rw [finalise_header_drand htime hitem henv]
    exact and_congr_right' (and_congr_right' (and_congr_right' drand_numbers_iff.symm))
  | @ctrng message unlockUnix reply keyBytes iv id _ h =>
    rw [finalise_header_ctrng h hitem henv hkey]
    exact and_congr_right' (and_congr_right' (and_congr_right' (ctrng_numbers_iff h).symm))

/-- **The item of a published link is the sealed one** exactly when neither name was given and the
round or the target sequence is a number that JSON has. The link works as long as no later request
takes its name. -/
theorem published_carried_iff {A : AesGcm} {timeAt : JsValue → Result JsValue}
    {now : TimeValue} {senderEns recipientEns : Option JsString} {location : Location}
    {before after : List SetName} {rows : EnsRecords} {normalize : JsString → Option JsString}
    (h : SealedItem A timeAt now senderEns recipientEns item)
    (hpublished : publishToNameStone config bytes item owner setName engine = some (.ok fqn))
    (hargs : publishArgs bytes item owner = .ok args)
    (hrun : nameStone.run nameStone.init (before ++ setNameBody config args :: after) = some rows)
    (hkept : ∀ r ∈ after, fullName r ≠ fqn) (hnormal : normalize fqn = some fqn)
    (hwell : WellFormed config.domain) (hbase : 63 ∉ location.base) (patches : List Patch)
    (hens : (patches.foldl QueueItem.patch item).capsuleEns = some fqn) (now' : TimeValue)
    (id' : JsString) :
    CarriedByName location (patches.foldl QueueItem.patch item) (readEnsText rows normalize) timeAt
        now' id' ↔
      senderEns = none ∧ recipientEns = none ∧
        ∀ x, item.round = .num x ∨ item.ctrngTargetSequence = .num x → x.isFinite = true := by
  obtain ⟨args', hargs', rfl⟩ := publishToNameStone_ok hpublished
  rw [hargs] at hargs'
  cases hargs'
  have hitem := QueueItem.foldl_patch QueueItem.patch_header item patches
  obtain ⟨hcreated, henvelope, key, hshare, hkeyB64, hkey⟩ := sealedItem_link h hitem
  obtain ⟨url, imp, hurl, henv, himpKey, htimes, himport⟩ := importLink_named timeAt now'
    id' hbase hwell hargs hcreated henvelope hnormal (nameStone_run hrun hkept) hens hshare hkey
  rw [carriedByName_iff hurl himport, finalise_header_iff h hitem
    (henv.trans (congrArg Header.envelope hitem).symm) (himpKey.trans hkeyB64.symm),
    and_iff_right htimes]

end

/-- The name that a nameless capsule is published under. -/
def sampleName : JsString := js "cap-01020304.sealed-sky.eth"

theorem published_carried_nameless : ∃ args rows,
    publishArgs [1, 2, 3, 4] (sampleItem none) none = .ok args ∧
      nameStone.run nameStone.init [setNameBody ⟨js "key", js "sealed-sky.eth"⟩ args] = some rows ∧
      CarriedByName ⟨js "https://localhost/", by decide⟩
        ((sampleItem none).patch { capsuleEns := some sampleName }) (readEnsText rows some)
        sampleTime ⟨86400000, by decide⟩ (js "b") := by
  have hitem : SealedItem zeroVector sampleTime ⟨1000, by decide⟩ none none (sampleItem none) :=
    .drand sampleTime_round
  obtain ⟨args, hargs⟩ : ∃ args, publishArgs [1, 2, 3, 4] (sampleItem none) none = .ok args :=
    ⟨_, rfl⟩
  have hlabel : args.label = js "cap-01020304" := by
    have hsample : generateCapsuleLabel [1, 2, 3, 4] = js "cap-01020304" := by decide
    obtain ⟨records, -, hargs⟩ := bind_eq_ok.1 hargs
    cases hargs
    exact hsample
  have hname : args.label ++ 46 :: js "sealed-sky.eth" = sampleName := by
    rw [hlabel]
    decide
  have hpublished : publishToNameStone ⟨js "key", js "sealed-sky.eth"⟩ [1, 2, 3, 4]
      (sampleItem none) none (fun _ => .response 200 (js "OK") none) [] =
        some (.ok sampleName) := by
    have hconfigured : isNameStoneConfigured ⟨js "key", js "sealed-sky.eth"⟩ = true := by decide
    rw [publishToNameStone, if_pos hconfigured, hargs, ok_bind, publishCapsule, if_pos hconfigured]
    simp only [isOkStatus]
    rw [← hname]
    rfl
  have hrun : nameStone.run nameStone.init
      ([] ++ setNameBody ⟨js "key", js "sealed-sky.eth"⟩ args :: []) = some _ := rfl
  refine ⟨args, _, hargs, rfl, (published_carried_iff hitem hpublished hargs hrun (by simp) rfl (wellFormed_ascii (by decide)) (by decide)
    [{ capsuleEns := some sampleName }] rfl _ _).2 ⟨rfl, rfl, ?_⟩⟩
  rintro x (hx | hx)
  · cases hx
    decide +kernel
  · cases hx

end SealedSky.Web.App
