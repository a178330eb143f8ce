import SealedSky.Backend.History
import SealedSky.Backend.Publish

/-!
# Reading the published history back (`backend/server.js:130-193`)

`publishValidationHistoryToEns` gives `set-name` the label and the configured domain, and gives out the
two joined by a dot. `readValidationTextRecordsViaNameStone` takes the joined name apart again: its last
two labels are the domain to ask for.

* `split_published` — what a published name is taken apart into.
* `readRows_stored` — the row that is found among those of the right domain.
* `readBack_iff` — exactly when what was published is read back.
-/
namespace SealedSky.Backend

open Js Fallible

/-- server.js:57. -/
def VALIDATION_ENS_TEXT_KEYS : List JsString :=
  [js "com.sealedsky.validation_history", js "com.sealedsky.validation_total",
    js "com.sealedsky.validation_slice", js "com.sealedsky.validation_updated_at",
    js "com.sealedsky.validation_app", js "com.sealedsky.validation_scope", js "description"]

structure SplitName where
  label : JsString
  parent : JsString
  full : JsString

/-- `parts.join(".")`. -/
def joinDots (parts : List JsString) : JsString := [46].intercalate parts

/-- server.js:131. -/
def splitEnsSubdomainAndParent (ensName : JsString) : Option SplitName :=
  let parts := (toLowerCase (trim ensName)).splitOn 46
  if parts.length < 3 then none
  else
    let parent := joinDots (parts.drop (parts.length - 2))
    let label := joinDots (parts.take (parts.length - 2))
    if label = [] ∨ parent = [] then none
    else some { label, parent, full := label ++ 46 :: parent }

/-- The query of `get-names`. Text records are always asked for. -/
structure GetNames where
  domain : JsString
  limit : ℕ
  authorization : Option JsString

inductive ReadResult where
  | notASubdomain (detail : JsString)
  | namestoneHttp (status : ℕ) (detail : JsString)
  | namestoneBadJson
  | namestoneNotFound (detail : JsString)
  | ok (records : List (JsString × JsValue)) (matched : JsString)

/-- The callback of `list.find` (server.js:172). -/
def isWanted (want : JsString) (item : JsValue) : Bool :=
  truthy item &&
    match (item.get (js "name")).str?, (item.get (js "domain")).str? with
    | some name, some domain => decide (toLowerCase (name ++ 46 :: domain) = want)
    | _, _ => false

/-- `v` where it is an object and not `null`, else an empty one. -/
def objectOrEmpty : JsValue → JsValue
  | .obj ps => .obj ps
  | .arr vs => .arr vs
  | _ => .obj []

/-- `v ?? null`. -/
def orNull : JsValue → JsValue
  | .undefined => .null
  | v => v

/-- `records` (server.js:185). -/
def recordsOfRow (row : JsValue) : List (JsString × JsValue) :=
  let tr := objectOrEmpty (row.get (js "text_records"))
  VALIDATION_ENS_TEXT_KEYS.map fun key => (key, orNull (tr.get key))

def readRows (want : JsString) : JsValue → ReadResult
  | .arr list =>
    match list.find? (isWanted want) with
    | some row => .ok (recordsOfRow row) want
    | none => .namestoneNotFound (js "no row for " ++ want ++ js " in first " ++
        printNat list.length ++ js " names")
  | _ => .namestoneBadJson

/-- server.js:157: what is made of the reply. -/
def readReply (want : JsString) : Fetched → Publishing ReadResult
  | .failed => .error .engine
  | .response status statusText text =>
    if isOkStatus status then (orThrow (text.bind parse)).map (readRows want)
    else .ok (.namestoneHttp status (detailOf statusText text))

/-- The query for a name. The configured domain is not looked at. -/
def getNamesOf (config : NamestoneConfig) (parsed : SplitName) : GetNames :=
  { domain := parsed.parent
    limit := 500
    authorization := if config.apiKey = [] then none else some config.apiKey }

/-- server.js:145. -/
def readValidationTextRecordsViaNameStone (config : NamestoneConfig) (ensName : JsString)
    (getNames : GetNames → Fetched) : Publishing ReadResult :=
  match splitEnsSubdomainAndParent ensName with
  | none => .ok (.notASubdomain ensName)
  | some parsed => readReply parsed.full (getNames (getNamesOf config parsed))

/-- `history` of `buildPayload` (server.js:603). -/
def payloadHistory (records : List (JsString × JsValue)) : JsValue :=
  let rawHistory := lookup records (js "com.sealedsky.validation_history")
  if truthy rawHistory then (rawHistory.toText.bind parse).getD .null else .null

/-! ## What NameStone keeps -/

/-- What `set-name` is called with: by the backend, and by the web app for a capsule under a label of
its own (`lib/namestone.ts:26`). -/
inductive Written : SetName → Prop where
  | history {config address now options history p}
      (h : preparePublish config address now options history = .ok p) : Written p.request
  | capsule {request : SetName} {bytes : List UInt8}
      (hname : request.name = js "cap-" ++ hexText bytes) : Written request

/-- The rows of NameStone: `set-name` replaces the one of its name and domain. -/
structure Rows (rows : List SetName) : Prop where
  written : ∀ row ∈ rows, Written row
  unique : ∀ row ∈ rows, ∀ row' ∈ rows, row.domain = row'.domain → row.name = row'.name → row = row'

def under (domain : JsString) (rows : List SetName) : List SetName :=
  rows.filter fun row => row.domain = domain

/-- An item of a reply shows a row. -/
structure Shows (item : JsValue) (row : SetName) : Prop where
  name : item.get (js "name") = .str row.name
  domain : item.get (js "domain") = .str row.domain
  records : ∃ ps, item.get (js "text_records") = .obj ps ∧
    ∀ r ∈ row.textRecords, lookup ps r.1 = .str r.2

/-- `get-names` shows the rows under a domain in some order, where they are within the limit. -/
def Serves (config : NamestoneConfig) (rows : List SetName) (getNames : GetNames → Fetched) : Prop :=
  ∀ query, query.authorization = some config.apiKey →
    (under query.domain rows).length ≤ query.limit →
    ∃ status statusText text items shown,
      getNames query = .response status statusText (some text) ∧ isOkStatus status = true ∧
      parse text = some (.arr items) ∧ shown.Perm (under query.domain rows) ∧
      List.Forall₂ Shows items shown

/-- The records of a request, as an object. -/
def stored (request : SetName) : List (JsString × JsValue) :=
  request.textRecords.map fun r => (r.1, .str r.2)

/-- What was published under a name is read back: the query is for the domain it is stored under, and
what comes of it are the records with the history. -/
structure ReadBack (config : NamestoneConfig) (p : Prepared) (ens : JsString)
    (getNames : GetNames → Fetched) : Prop where
  domain : ∃ parsed, splitEnsSubdomainAndParent ens = some parsed ∧
    (getNamesOf config parsed).domain = p.request.domain
  records : ∃ records matched,
    readValidationTextRecordsViaNameStone config ens getNames = .ok (.ok records matched) ∧
    records = stored p.request ∧ payloadHistory records = .arr (elementsJson p.slice)

/-- A domain of two labels without white space behind it. -/
structure TwoLabels (domain : JsString) : Prop where
  labels : (domain.splitOn 46).length = 2
  trimmed : domain.rdropWhile isSpace = domain

/-! ## The name taken apart -/

theorem toLowerCase_append (s t : JsString) :
    toLowerCase (s ++ t) = toLowerCase s ++ toLowerCase t := List.flatMap_append

theorem toLowerCase_dot (s : JsString) : toLowerCase (46 :: s) = 46 :: toLowerCase s := by
  have hdot : toLowerCase [46] = [46] := by decide
  rw [← List.singleton_append, toLowerCase_append, hdot, List.singleton_append]

/-- A lowercase text is lowercase unit by unit, as no unit is left out. -/
theorem flatMap_eq_self {α : Type} {f : α → List α} (hf : ∀ u, f u ≠ []) {s : List α}
    (h : s.flatMap f = s) : ∀ u ∈ s, f u = [u] := by
  have hlen : ∀ t : List α, t.length ≤ (t.flatMap f).length := by
    intro t
    induction t with
    | nil => exact Nat.zero_le _
    | cons u t ih =>
      have hpos := List.length_pos_of_ne_nil (hf u)
      rw [List.flatMap_cons, List.length_append, List.length_cons]
      omega
  induction s with
  | nil => simp
  | cons u s ih =>
    rw [List.flatMap_cons] at h
    have hpos := List.length_pos_of_ne_nil (hf u)
    have hone : (f u).length = 1 := by
      have hsum := congrArg List.length h
      have hrest := hlen s
      rw [List.length_append, List.length_cons] at hsum
      omega
    obtain ⟨v, hv⟩ := List.length_eq_one_iff.1 hone
    rw [hv, List.singleton_append] at h
    obtain ⟨rfl, hs⟩ := List.cons.inj h
    intro w hw
    rcases List.mem_cons.1 hw with rfl | hw
    · exact hv
    · exact ih hs w hw

theorem toLowerCase_prefix {s t : JsString} (h : toLowerCase s = s) (ht : t <+: s) :
    toLowerCase t = t := by
  have hunit := flatMap_eq_self (fun u => by split <;> [skip; split] <;> simp) h
  unfold toLowerCase
  rw [List.flatMap_congr fun u hu => hunit u (ht.subset hu)]
  exact List.flatMap_singleton' t

theorem rdropWhile_append_cons {p : UInt16 → Bool} {u : UInt16} (hu : p u = false)
    (s t : JsString) : (s ++ u :: t).rdropWhile p = s ++ u :: t.rdropWhile p := by
  unfold List.rdropWhile
  rw [List.reverse_append, List.reverse_cons, List.append_assoc, List.dropWhile_append]
  split
  · rename_i hnil
    rw [List.isEmpty_iff.1 hnil, List.singleton_append, List.dropWhile_cons_of_neg (by simp [hu])]
    simp
  · simp

/-- What a label is made of, and that it is not empty. -/
def IsLabel (label : JsString) : Prop :=
  label ≠ [] ∧ ∀ u ∈ label, labels.letter u = true ∨ u = labels.sep

theorem label_unit {label : JsString} (h : IsLabel label) {u : UInt16} (hu : u ∈ label) :
    isSpace u = false ∧ u ≠ 46 := by
  have hascii : ∀ n < 123, n = 45 ∨ 48 ≤ n → isSpace (UInt16.ofNat n) = false := by decide
  have hsmall : u.toNat < 123 ∧ (u.toNat = 45 ∨ 48 ≤ u.toNat) := by
    rcases h.2 u hu with hletter | rfl
    · have hletter := of_decide_eq_true hletter
      omega
    · decide
  refine ⟨UInt16.ofNat_toNat (x := u) ▸ hascii u.toNat hsmall.1 hsmall.2, ?_⟩
  rintro rfl
  exact absurd hsmall (by decide)

theorem trim_label {label : JsString} (h : IsLabel label) (domain : JsString) :
    trim (label ++ 46 :: domain) = label ++ 46 :: domain.rdropWhile isSpace := by
  obtain ⟨u, r, rfl⟩ := List.exists_cons_of_ne_nil h.1
  have hu := (label_unit h List.mem_cons_self).1
  rw [trim, List.cons_append, List.dropWhile_cons_of_neg (by simp [hu]), ← List.cons_append,
    rdropWhile_append_cons (by decide)]

/-- **A published name in labels**: its own, and those of the domain up to white space behind it. -/
theorem split_published {label domain : JsString} (h : IsLabel label)
    (hlower : toLowerCase domain = domain) :
    (toLowerCase (trim (label ++ 46 :: domain))).splitOn 46 =
      label :: (domain.rdropWhile isSpace).splitOn 46 := by
  have hdomain : toLowerCase (domain.rdropWhile isSpace) = domain.rdropWhile isSpace :=
    toLowerCase_prefix hlower (List.rdropWhile_prefix _ _)
  rw [trim_label h, toLowerCase_append, toLowerCase_of_mem h.2, toLowerCase_dot, hdomain,
    List.splitOn_append_cons_self_of_not_mem fun hmem => (label_unit h hmem).2 rfl]

theorem joinDots_cons (part : JsString) {parts : List JsString} (h : parts ≠ []) :
    joinDots (part :: parts) = part ++ 46 :: joinDots parts := by
  rw [joinDots, List.intercalate_cons_of_ne_nil h, List.append_assoc, List.singleton_append]
  rfl

/-- Fewer labels of a domain are a shorter one. -/
theorem joinDots_drop_length (parts : List JsString) (n : ℕ) :
    (joinDots (parts.drop n)).length ≤ (joinDots parts).length ∧
      (0 < n → n < parts.length → (joinDots (parts.drop n)).length < (joinDots parts).length) := by
  induction parts generalizing n with
  | nil => simp
  | cons part parts ih =>
    cases n with
    | zero => simp
    | succ n =>
      obtain ⟨hle, -⟩ := ih n
      rw [List.drop_succ_cons]
      by_cases hnil : parts = []
      · subst hnil
        simp [joinDots]
      · rw [joinDots_cons part hnil, List.length_append, List.length_cons]
        exact ⟨by omega, fun _ _ => by omega⟩

theorem joinDots_splitOn (s : JsString) : joinDots (s.splitOn 46) = s := List.intercalate_splitOn 46

/-- A name under a domain of two labels comes apart as it was put together. -/
theorem split_two {label domain : JsString} (h : IsLabel label)
    (hlower : toLowerCase domain = domain) (htwo : TwoLabels domain) :
    splitEnsSubdomainAndParent (label ++ 46 :: domain) =
      some ⟨label, domain, label ++ 46 :: domain⟩ := by
  have hjoin := joinDots_splitOn domain
  obtain ⟨a, b, hab⟩ := List.length_eq_two.1 htwo.labels
  have hne : domain ≠ [] := by
    rintro rfl
    exact absurd htwo.labels (by decide)
  have hlabel : joinDots [label] = label := List.intercalate_singleton
  unfold splitEnsSubdomainAndParent
  rw [split_published h hlower, htwo.trimmed, hab]
  rw [hab] at hjoin
  change (if joinDots [label] = [] ∨ joinDots [a, b] = [] then none else
    some (SplitName.mk (joinDots [label]) (joinDots [a, b])
      (joinDots [label] ++ 46 :: joinDots [a, b]))) = _
  rw [hjoin, hlabel, if_neg (not_or.2 ⟨h.1, hne⟩)]

/-- **The domain that is asked for** is the one of the name exactly when that has two labels. -/
theorem split_parent_iff {label domain : JsString} (h : IsLabel label)
    (hlower : toLowerCase domain = domain) :
    (∃ parsed, splitEnsSubdomainAndParent (label ++ 46 :: domain) = some parsed ∧
        parsed.parent = domain) ↔ TwoLabels domain := by
  constructor
  · rintro ⟨parsed, hparsed, hparent⟩
    unfold splitEnsSubdomainAndParent at hparsed
    rw [split_published h hlower] at hparsed
    set ds := (domain.rdropWhile isSpace).splitOn 46 with hds
    have hjoin : joinDots ds = domain.rdropWhile isSpace := joinDots_splitOn _
    have hprefix := (List.rdropWhile_prefix isSpace domain).length_le
    simp only [List.length_cons] at hparsed
    split at hparsed
    · cases hparsed
    · rename_i hlen
      split at hparsed
      · cases hparsed
      · cases hparsed
        have hdrop : (label :: ds).drop (ds.length + 1 - 2) = ds.drop (ds.length - 2) := by
          have hn : ds.length + 1 - 2 = ds.length - 2 + 1 := by omega
          rw [hn, List.drop_succ_cons]
        simp only [hdrop] at hparent
        obtain ⟨hle, hlt⟩ := joinDots_drop_length ds (ds.length - 2)
        have hsame := congrArg List.length hparent
        rw [hjoin] at hle hlt
        have htrim : domain.rdropWhile isSpace = domain :=
          (List.rdropWhile_prefix isSpace domain).eq_of_length (by omega)
        refine ⟨?_, htrim⟩
        rw [htrim] at hds
        rw [← hds]
        by_contra hne
        have := hlt (by omega) (by omega)
        omega
  · intro htwo
    exact ⟨⟨label, domain, label ++ 46 :: domain⟩, split_two h hlower htwo, rfl⟩

/-! ## The row that is found -/

section
variable {config : NamestoneConfig} {address now : JsString} {options : JsValue} {p : Prepared}

/-- The last record is prepared alone. -/
theorem preparePublish_last {history : List JsValue}
    (hconfig : config.apiKey ≠ [] ∧ config.parentDomain ≠ []) (hfull : isFull options = false) :
    preparePublish config address now options (some history) =
      (lastSlice history).bind fun last =>
        requestOf config address now options history.length false last.1 last.2 := by
  unfold preparePublish
  rw [if_neg (not_or.2 hconfig), hfull]
  rfl

/-- A request is for a label under the configured domain. -/
structure Requests (config : NamestoneConfig) (now : JsString) (p : Prepared) : Prop where
  name : IsLabel p.request.name
  domain : p.request.domain = config.parentDomain
  records : ∃ description,
    p.request.textRecords = textRecords p.total p.full p.slice now description

theorem requestOf_ok {total : ℕ} {full : Bool} {slice : List JsValue} {description : JsString}
    (h : requestOf config address now options total full slice description = .ok p) :
    p.slice = slice ∧ Requests config now p := by
  by_cases hfits : Fits slice
  · obtain ⟨hthrows, -⟩ | ⟨subdomain, label, hlabel, hok⟩ :=
      @requestOf_cases config address now options total full slice description hfits
    · rw [hthrows] at h
      cases h
    · rw [hok] at h
      cases h
      exact ⟨rfl, sanitizeEnsLabel_mem hlabel, rfl, description, rfl⟩
  · unfold requestOf at h
    rw [if_pos hfits] at h
    cases h

theorem fullSlice_mem {history slice : List JsValue} (h : fullSlice options history = .ok slice) :
    ∀ v ∈ slice, v ∈ history := by
  cases hn : (options.get (js "maxEntries")).toNumber with
  | none =>
    unfold fullSlice at h
    rw [hn] at h
    cases h
  | some n =>
    rw [fullSlice_eq hn] at h
    split at h
    · cases h
      have hsuffix : trimmed history (entryLimit n) <:+ history :=
        (trimSlice_suffix _).trans (List.drop_suffix _ _)
      exact fun v hv => hsuffix.subset hv
    · cases h

theorem lastSlice_mem {history : List JsValue} {last : List JsValue × JsString}
    (h : lastSlice history = .ok last) : ∀ v ∈ last.1, v ∈ history := by
  unfold lastSlice at h
  cases hlast : history.getLast? with
  | none =>
    rw [hlast] at h
    cases h
  | some v =>
    rw [hlast] at h
    obtain ⟨status, -, h⟩ := bind_eq_ok.1 h
    obtain ⟨st, -, h⟩ := bind_eq_ok.1 h
    obtain ⟨receivedAt, -, h⟩ := bind_eq_ok.1 h
    cases h
    intro w hw
    rw [List.mem_singleton.1 hw]
    exact List.mem_of_getLast? hlast

/-- **What is prepared**, in either scope: a part of the history, and the request for it. -/
theorem preparePublish_ok {history : Option (List JsValue)}
    (h : preparePublish config address now options history = .ok p) :
    config.apiKey ≠ [] ∧ (∃ entries, history = some entries ∧ ∀ v ∈ p.slice, v ∈ entries) ∧
      Requests config now p := by
  by_cases hconfig : config.apiKey = [] ∨ config.parentDomain = []
  · unfold preparePublish at h
    rw [if_pos hconfig] at h
    cases h
  · refine ⟨(not_or.1 hconfig).1, ?_⟩
    cases history with
    | none =>
      unfold preparePublish at h
      rw [if_neg hconfig] at h
      cases h
    | some entries =>
      by_cases hfull : isFull options = true
      · rw [preparePublish_eq (not_or.1 hconfig) hfull] at h
        obtain ⟨slice, hslice, h⟩ := bind_eq_ok.1 h
        obtain ⟨heq, hrequests⟩ := requestOf_ok h
        exact ⟨⟨entries, rfl, heq ▸ fullSlice_mem hslice⟩, hrequests⟩
      · rw [preparePublish_last (not_or.1 hconfig) (eq_false_of_ne_true hfull)] at h
        obtain ⟨last, hlast, h⟩ := bind_eq_ok.1 h
        obtain ⟨heq, hrequests⟩ := requestOf_ok h
        exact ⟨⟨entries, rfl, heq ▸ lastSlice_mem hlast⟩, hrequests⟩

end

/-- The labels of both programs are in lowercase. -/
theorem Written.lower {row : SetName} (h : Written row) : toLowerCase row.name = row.name := by
  cases h with
  | history h => exact toLowerCase_of_mem (preparePublish_ok h).2.2.name.2
  | @capsule _ bytes hname =>
    have hdigit : ∀ u ∈ js "0123456789abcdef", labels.letter u = true ∨ u = labels.sep := by decide
    have hfront : ∀ u ∈ js "cap-", labels.letter u = true ∨ u = labels.sep := by decide
    rw [hname]
    refine toLowerCase_of_mem fun u hu => ?_
    rcases List.mem_append.1 hu with hu | hu
    · exact hfront u hu
    · exact hdigit u (mem_hexText hu)

theorem isWanted_shows {item : JsValue} {row : SetName} {want : JsString} (h : Shows item row) :
    isWanted want item = true ↔ toLowerCase (row.name ++ 46 :: row.domain) = want := by
  have htruthy : truthy item = true := by
    obtain ⟨hname, -, -⟩ := h
    cases item with
    | obj ps => rfl
    | _ => cases hname
  rw [isWanted, htruthy, h.name, h.domain]
  simp [JsValue.str?]

/-- The records that are read off the item of a row. -/
theorem recordsOfRow_shows {item : JsValue} {row : SetName} (h : Shows item row)
    (hkeys : row.textRecords.map Prod.fst = VALIDATION_ENS_TEXT_KEYS) :
    recordsOfRow item = stored row := by
  obtain ⟨ps, hps, hlookup⟩ := h.records
  unfold recordsOfRow stored
  rw [hps, ← hkeys, List.map_map]
  refine List.map_congr_left fun r hr => ?_
  simp only [Function.comp, objectOrEmpty, JsValue.get_obj, hlookup r hr, orNull]

theorem under_self {request : SetName} {rows : List SetName} (h : request ∈ rows) :
    request ∈ under request.domain rows := List.mem_filter.2 ⟨h, decide_eq_true rfl⟩

/-- **The row that was stored is found** among those under its domain. -/
theorem readRows_stored {rows shown : List SetName} {items : List JsValue} {request : SetName}
    (hrows : Rows rows) (hmem : request ∈ rows) (hlower : toLowerCase request.domain = request.domain)
    (hperm : shown.Perm (under request.domain rows)) (hshows : List.Forall₂ Shows items shown)
    (hkeys : request.textRecords.map Prod.fst = VALIDATION_ENS_TEXT_KEYS) :
    readRows (request.name ++ 46 :: request.domain) (.arr items) =
      .ok (stored request) (request.name ++ 46 :: request.domain) := by
  have hfull : ∀ row ∈ rows, row.domain = request.domain →
      toLowerCase (row.name ++ 46 :: row.domain) = row.name ++ 46 :: row.domain := by
    intro row hrow hdomain
    rw [toLowerCase_append, toLowerCase_dot, (hrows.written row hrow).lower, hdomain, hlower]
  have hshown : ∀ row ∈ shown, row ∈ rows ∧ row.domain = request.domain := by
    intro row hrow
    have hunder := List.mem_filter.1 (hperm.subset hrow)
    exact ⟨hunder.1, of_decide_eq_true hunder.2⟩
  -- what is wanted is the row of the request alone, as names under a domain are different
  have hwanted : ∀ item row, row ∈ shown → Shows item row →
      (isWanted (request.name ++ 46 :: request.domain) item = true ↔ row = request) := by
    intro item row hrow hitem
    obtain ⟨hin, hdomain⟩ := hshown row hrow
    rw [isWanted_shows hitem, hfull row hin hdomain]
    constructor
    · intro heq
      rw [hdomain] at heq
      exact hrows.unique row hin request hmem hdomain (List.append_cancel_right heq)
    · rintro rfl
      rfl
  have hin : request ∈ shown := hperm.symm.subset (under_self hmem)
  have hfound : ∃ item, items.find? (isWanted (request.name ++ 46 :: request.domain)) = some item ∧
      Shows item request := by
    clear hperm hfull
    induction hshows with
    | nil => cases hin
    | @cons item row items shown hitem hshows ih =>
      have hiff := hwanted item row List.mem_cons_self hitem
      by_cases hrow : row = request
      · subst hrow
        exact ⟨item, List.find?_cons_of_pos (hiff.2 rfl), hitem⟩
      · have htail : request ∈ shown := by
          rcases List.mem_cons.1 hin with heq | htail
          · exact absurd heq.symm hrow
          · exact htail
        obtain ⟨found, hfind, hfound⟩ := ih
          (fun row hrow => hshown row (List.mem_cons_of_mem _ hrow))
          (fun item row hrow => hwanted item row (List.mem_cons_of_mem _ hrow)) htail
        exact ⟨found, by rw [List.find?_cons_of_neg (fun h => hrow (hiff.1 h)), hfind], hfound⟩
  obtain ⟨item, hfind, hitem⟩ := hfound
  rw [readRows, hfind]
  simp only [recordsOfRow_shows hitem hkeys]

/-! ## Read back -/

/-- The published text is that of the slice. -/
theorem payloadHistory_stored {config : NamestoneConfig} {now : JsString} {p : Prepared}
    (h : Requests config now p) :
    payloadHistory (stored p.request) = .arr (elementsJson p.slice) := by
  obtain ⟨description, hrecords⟩ := h.records
  have hlookup : lookup (stored p.request) (js "com.sealedsky.validation_history") =
      .str (jsonText (.arr p.slice)) := by
    rw [stored, hrecords]
    exact if_pos rfl
  have htruthy : truthy (.str (jsonText (.arr p.slice))) = true := by
    rw [jsonText]
    rfl
  unfold payloadHistory
  rw [hlookup, if_pos htruthy, JsValue.toText_str, Option.bind_some, parse_jsonText, asJson]
  rfl

theorem elementsJson_eq_self_iff {vs : List JsValue} :
    elementsJson vs = vs ↔ ∀ v ∈ vs, asJson v = v := by
  induction vs with
  | nil => simp [elementsJson]
  | cons v vs ih => rw [elementsJson, List.cons.injEq, ih, List.forall_mem_cons]

/-- What the program wrote itself comes back as it was. -/
theorem elementsJson_written {file : File} {history slice : List JsValue}
    (h : readHistory file = some history)
    (hfile : file = none ∨ ∃ entries, file = some (historyBytes entries))
    (hslice : ∀ v ∈ slice, v ∈ history) : elementsJson slice = slice := by
  have hfixed : elementsJson history = history := by
    rcases hfile with rfl | ⟨entries, rfl⟩
    · cases h
      rfl
    · rw [readHistory_written] at h
      cases h
      exact elementsJson_elementsJson entries
  exact elementsJson_eq_self_iff.2 fun v hv => elementsJson_eq_self_iff.1 hfixed v (hslice v hv)

/-- The name that is given out. -/
theorem publish_ens {config : NamestoneConfig} {address now : JsString} {options : JsValue}
    {history : List JsValue} {setName : SetName → Fetched} {p : Prepared} {r : Published}
    (hprepared : preparePublish config address now options (some history) = .ok p)
    (hpublished : publishValidationHistoryToEns config address now options (some history) setName =
      .ok r) : r.ens = p.request.name ++ 46 :: config.parentDomain := by
  rw [publish_of_ok hprepared] at hpublished
  obtain ⟨-, hreply⟩ | ⟨-, e, hreply, -⟩ := replyOf_cases p (setName p.request)
  · rw [hreply] at hpublished
    cases hpublished
    rfl
  · rw [hreply] at hpublished
    cases hpublished

/-- **The records are read back** under a domain of two labels. -/
theorem read_stored {config : NamestoneConfig} {now : JsString} {getNames : GetNames → Fetched}
    {rows : List SetName} {p : Prepared} (hkey : config.apiKey ≠ [])
    (hlower : toLowerCase config.parentDomain = config.parentDomain)
    (htwo : TwoLabels config.parentDomain) (h : Requests config now p) (hrows : Rows rows)
    (hstored : p.request ∈ rows) (hcount : (under config.parentDomain rows).length ≤ 500)
    (hserved : Serves config rows getNames) :
    readValidationTextRecordsViaNameStone config (p.request.name ++ 46 :: config.parentDomain)
        getNames =
      .ok (.ok (stored p.request) (p.request.name ++ 46 :: config.parentDomain)) := by
  have hauthorization : (if config.apiKey = [] then none else some config.apiKey) =
      some config.apiKey := if_neg hkey
  obtain ⟨status, statusText, text, items, shown, hreply, hok, hparse, hperm, hshows⟩ :=
    hserved (getNamesOf config ⟨p.request.name, config.parentDomain,
      p.request.name ++ 46 :: config.parentDomain⟩) hauthorization hcount
  have hkeys : p.request.textRecords.map Prod.fst = VALIDATION_ENS_TEXT_KEYS := by
    obtain ⟨description, hrecords⟩ := h.records
    rw [hrecords]
    rfl
  have hrow := readRows_stored hrows hstored (h.domain.symm ▸ hlower)
    (h.domain.symm ▸ hperm) hshows hkeys
  rw [h.domain] at hrow
  unfold readValidationTextRecordsViaNameStone
  rw [split_two h.name hlower htwo]
  simp only [hreply, readReply, if_pos hok, Option.bind_some, hparse, orThrow, ok_map, hrow]

/-- **Exactly when what was published is read back**: under a domain of two labels. -/
theorem readBack_iff {config : NamestoneConfig} {address now : JsString} {options : JsValue}
    {file : File} {setName : SetName → Fetched} {getNames : GetNames → Fetched}
    {rows : List SetName} {p : Prepared} {r : Published}
    (hlower : toLowerCase config.parentDomain = config.parentDomain)
    (hprepared : preparePublish config address now options (readHistory file) = .ok p)
    (hpublished : publishValidationHistoryToEns config address now options (readHistory file)
      setName = .ok r)
    (hrows : Rows rows) (hstored : p.request ∈ rows)
    (hcount : (under config.parentDomain rows).length ≤ 500)
    (hserved : Serves config rows getNames) :
    (ReadBack config p r.ens getNames ↔ TwoLabels config.parentDomain) ∧
      ((file = none ∨ ∃ entries, file = some (historyBytes entries)) →
        elementsJson p.slice = p.slice) := by
  obtain ⟨hkey, ⟨history, hhistory, hslice⟩, hrequests⟩ := preparePublish_ok hprepared
  rw [hhistory] at hprepared hpublished
  have hens := publish_ens hprepared hpublished
  have hsplit := split_parent_iff hrequests.name hlower
  refine ⟨⟨fun h => ?_, fun htwo => ?_⟩, fun hfile => elementsJson_written hhistory hfile hslice⟩
  · obtain ⟨parsed, hparsed, hdomain⟩ := h.domain
    rw [hens] at hparsed
    exact hsplit.1 ⟨parsed, hparsed, hdomain.trans hrequests.domain⟩
  · have hparsed := split_two hrequests.name hlower htwo
    rw [hens]
    exact ⟨⟨_, hparsed, hrequests.domain.symm⟩, _, _,
      read_stored hkey hlower htwo hrequests hrows hstored hcount hserved, rfl,
      payloadHistory_stored hrequests⟩

/-! ## A service -/

/-- The item of a row. -/
def itemOf (row : SetName) : JsValue :=
  .obj [(js "name", .str row.name), (js "domain", .str row.domain), (js "address", .str row.address),
    (js "text_records", .obj (stored row))]

def serve (rows : List SetName) (query : GetNames) : Fetched :=
  .response 200 (js "OK") (some (jsonText (.arr ((under query.domain rows).map itemOf))))

/-- The records of a row have different keys. -/
def DistinctKeys (row : SetName) : Prop := (row.textRecords.map Prod.fst).Nodup

theorem keys_stored (row : SetName) : keys (stored row) = row.textRecords.map Prod.fst := by
  simp [keys, stored]

theorem shows_itemOf {row : SetName} (h : DistinctKeys row) : Shows (asJson (itemOf row)) row := by
  have hnd : (keys (stored row)).Nodup := by
    rw [keys_stored]
    exact h
  have hnames : ([js "name", js "domain", js "address", js "text_records"] : List JsString).Nodup := by
    decide
  have hitem : ∀ k, (asJson (itemOf row)).get k = propJson ((itemOf row).get k) :=
    get_asJson hnames
  have hrecords : asJson (.obj (stored row)) = .obj (stored row) := by
    refine asJson_obj_of_fixed hnd fun r hr => ?_
    obtain ⟨t, -, rfl⟩ := List.mem_map.1 hr
    rw [asJson]
  refine ⟨?_, ?_, stored row, ?_, fun r hr => ?_⟩
  · rw [hitem]
    change asJson (.str row.name) = _
    rw [asJson]
  · rw [hitem]
    change asJson (.str row.domain) = _
    rw [asJson]
  · rw [hitem]
    exact hrecords
  · exact lookup_of_mem hnd (List.mem_map_of_mem (f := fun r => (r.1, JsValue.str r.2)) hr)

/-- **The service shows what it keeps.** -/
theorem serves_serve (config : NamestoneConfig) {rows : List SetName}
    (h : ∀ row ∈ rows, DistinctKeys row) : Serves config rows (serve rows) := by
  intro query _ _
  have hshows : ∀ shown : List SetName, (∀ row ∈ shown, DistinctKeys row) →
      List.Forall₂ Shows (elementsJson (shown.map itemOf)) shown := by
    intro shown
    induction shown with
    | nil => exact fun _ => .nil
    | cons row shown ih =>
      intro hshown
      rw [List.map_cons, elementsJson]
      exact .cons (shows_itemOf (hshown row List.mem_cons_self))
        (ih fun row hrow => hshown row (List.mem_cons_of_mem _ hrow))
  refine ⟨200, js "OK", _, _, under query.domain rows, rfl, rfl, ?_, .refl _,
    hshows _ fun row hrow => h row (List.mem_of_mem_filter hrow)⟩
  rw [parse_jsonText, asJson]

theorem Requests.distinctKeys {config : NamestoneConfig} {now : JsString} {p : Prepared}
    (h : Requests config now p) : DistinctKeys p.request := by
  obtain ⟨description, hrecords⟩ := h.records
  rw [DistinctKeys, hrecords]
  exact (by decide : VALIDATION_ENS_TEXT_KEYS.Nodup)

/-- What is published first is the one row of the service. -/
theorem publish_served {config : NamestoneConfig} {address now : JsString} {options : JsValue}
    {history : List JsValue} {p : Prepared}
    (h : preparePublish config address now options (some history) = .ok p) :
    (∃ r, publishValidationHistoryToEns config address now options (some history)
        (fun _ => .response 200 (js "OK") none) = .ok r) ∧
      Rows [p.request] ∧ Serves config [p.request] (serve [p.request]) := by
  have hdistinct := (preparePublish_ok h).2.2.distinctKeys
  refine ⟨⟨_, publish_of_ok h⟩, ⟨?_, ?_⟩, serves_serve config ?_⟩
  · intro row hrow
    rw [List.mem_singleton.1 hrow]
    exact .history h
  · intro row hrow row' hrow' _ _
    rw [List.mem_singleton.1 hrow, List.mem_singleton.1 hrow']
  · intro row hrow
    rw [List.mem_singleton.1 hrow]
    exact hdistinct

/-- Two histories under two names are the rows of the service. -/
theorem publish_pair {config : NamestoneConfig} {address now : JsString} {options options' : JsValue}
    {history history' : List JsValue} {p q : Prepared}
    (h : preparePublish config address now options (some history) = .ok p)
    (h' : preparePublish config address now options' (some history') = .ok q)
    (hne : q.request.name ≠ p.request.name) :
    Rows [q.request, p.request] ∧
      Serves config [q.request, p.request] (serve [q.request, p.request]) := by
  have hwritten : ∀ row ∈ [q.request, p.request], Written row ∧ DistinctKeys row := by
    intro row hrow
    simp only [List.mem_cons, List.not_mem_nil, or_false] at hrow
    rcases hrow with rfl | rfl
    · exact ⟨.history h', (preparePublish_ok h').2.2.distinctKeys⟩
    · exact ⟨.history h, (preparePublish_ok h).2.2.distinctKeys⟩
  refine ⟨⟨fun row hrow => (hwritten row hrow).1, fun row hrow row' hrow' _ hname => ?_⟩,
    serves_serve config fun row hrow => (hwritten row hrow).2⟩
  simp only [List.mem_cons, List.not_mem_nil, or_false] at hrow hrow'
  rcases hrow with rfl | rfl <;> rcases hrow' with rfl | rfl
  · rfl
  · exact absurd hname hne
  · exact absurd hname.symm hne
  · rfl

theorem ok_of_map {α : Type} {x : Publishing Prepared} {f : Prepared → α} {y : α}
    (h : x.toOption.map f = some y) : ∃ p, x = .ok p ∧ f p = y := by
  cases x with
  | error e => cases h
  | ok p => exact ⟨p, rfl, Option.some.inj h⟩

def smallConfig : NamestoneConfig := ⟨js "key", js "id144.eth"⟩

/-- A publish of a history under a domain of two labels. -/
def prepareSmall (options : JsValue) (history : List JsValue) : Publishing Prepared :=
  preparePublish smallConfig (js "0x01") (js "2026-05-09T12:00:00.000Z") options (some history)

/-- Another history is published as `second`. -/
def secondOptions : JsValue := .obj [(js "subdomain", .str (js "second"))]

theorem readBack_two_rows : ∃ (p q : Prepared) (r : Published),
    preparePublish smallConfig (js "0x01") (js "2026-05-09T12:00:00.000Z") (.obj [])
        (readHistory twoRecords) = .ok p ∧ p.slice.length = 2 ∧
      publishValidationHistoryToEns smallConfig (js "0x01") (js "2026-05-09T12:00:00.000Z") (.obj [])
        (readHistory twoRecords) (fun _ => .response 200 (js "OK") none) = .ok r ∧
      prepareSmall secondOptions [rejection] = .ok q ∧
      ReadBack smallConfig p r.ens (serve [q.request, p.request]) := by
  have hprepared : ∃ p, prepareSmall (.obj []) (elementsJson
      [.obj [(js "status", .str (js "accepted"))], rejection]) = .ok p ∧
      (p.request.name, p.slice.length) = (js "oracle-validation", 2) :=
    ok_of_map (by decide +kernel)
  have hsecond : ∃ q, prepareSmall secondOptions [rejection] = .ok q ∧
      q.request.name = js "second" := ok_of_map (by decide +kernel)
  obtain ⟨p, hp, hnamed⟩ := hprepared
  obtain ⟨q, hq, hname'⟩ := hsecond
  obtain ⟨hname, hcount⟩ := Prod.mk.inj hnamed
  obtain ⟨⟨r, hr⟩, -, -⟩ := publish_served hp
  obtain ⟨hrows, hserves⟩ := publish_pair hp hq (by rw [hname, hname']; decide)
  rw [prepareSmall, ← readHistory_twoRecords] at hp
  rw [← readHistory_twoRecords] at hr
  have hfew : (under (js "id144.eth") [q.request, p.request]).length ≤ 500 :=
    (List.length_filter_le _ _).trans (by simp)
  exact ⟨p, q, r, hp, hcount, hr, hq, (readBack_iff (by decide) hp hr hrows
    (List.mem_cons_of_mem _ List.mem_cons_self) hfew hserves).1.2 ⟨by decide, by decide⟩⟩

/-- Publishing no records yet. -/
def prepareNone (domain : JsString) : Publishing Prepared :=
  preparePublish ⟨js "key", domain⟩ (js "0x01") (js "2026-05-09T12:00:00.000Z") (.obj [])
    (readHistory none)

/-- Three labels: the records are under `team.id144.eth`, and `id144.eth` is asked for. -/
theorem three_labels_lost : ∃ p r, prepareNone (js "team.id144.eth") = .ok p ∧
    publishValidationHistoryToEns ⟨js "key", js "team.id144.eth"⟩ (js "0x01")
      (js "2026-05-09T12:00:00.000Z") (.obj []) (readHistory none)
      (fun _ => .response 200 (js "OK") none) = .ok r ∧
    Rows [p.request] ∧ Serves ⟨js "key", js "team.id144.eth"⟩ [p.request] (serve [p.request]) ∧
    r.ens = js "oracle-validation.team.id144.eth" ∧
    (splitEnsSubdomainAndParent r.ens).map (fun parsed => parsed.parent) = some (js "id144.eth") ∧
    ¬ ReadBack ⟨js "key", js "team.id144.eth"⟩ p r.ens (serve [p.request]) := by
  have hprepared : ∃ p, prepareNone (js "team.id144.eth") = .ok p ∧
      p.request.name = js "oracle-validation" := ok_of_map (by decide +kernel)
  obtain ⟨p, hp, hname⟩ := hprepared
  obtain ⟨⟨r, hr⟩, hrows, hserves⟩ := publish_served hp
  have hens : r.ens = js "oracle-validation.team.id144.eth" := by
    rw [publish_ens hp hr, hname]
    decide
  have hparent : (splitEnsSubdomainAndParent r.ens).map (fun parsed => parsed.parent) =
      some (js "id144.eth") := by
    rw [hens]
    decide +kernel
  refine ⟨p, r, hp, hr, hrows, hserves, hens, hparent, fun h => ?_⟩
  obtain ⟨parsed, hparsed, hdomain⟩ := h.domain
  rw [hparsed, Option.map_some] at hparent
  have hsame := (Option.some.inj hparent).symm.trans
    (hdomain.trans (preparePublish_ok hp).2.2.domain)
  exact absurd hsame (by decide)

end SealedSky.Backend
