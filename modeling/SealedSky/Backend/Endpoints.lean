import SealedSky.Backend.ReadBack
import SealedSky.Lib.Lts

/-!
# Publishing while requests go on (`backend/server.js:294-304`, `561-672`)

The history file grows by the records of the requests. From time to time a part of it is published, under
a name of NameStone that a later publish of the name replaces, and anybody may read that name back, from
NameStone or else from the first Ethereum endpoint that has a resolver for it.

* `historyItems_eq` — what `GET /history` shows for a limit.
* `readValidationEns_ens` — which endpoint answers when NameStone does not.
* `run_read_published` — in every run, what is read under a published name is the end of the history as
  it was when it was published, which is a part of the history as it is.
-/
namespace SealedSky.Backend

open Js Binary64 Fallible

/-! ## `GET /history` -/

/-- `limit`, of what `Number(req.query.limit)` is (server.js:296). -/
def historyLimit (n : JsNum) : JsNum :=
  if n.isFinite = true ∧ (ofRat 0).lt n = true then n.floor else ofRat 3

structure HistoryPage where
  total : ℕ
  count : ℕ
  items : List JsValue

/-- server.js:294. -/
def getHistory (file : File) (limit : JsNum) : Option HistoryPage :=
  (readHistory file).map fun history =>
    let lastItems := (sliceFrom history (historyLimit limit).neg).reverse
    { total := history.length, count := lastItems.length, items := lastItems }

/-! ## `POST /publish-validation-ens` -/

inductive PublishAnswer where
  | success (ens : JsString) (out : Published)
  | refused (e : Failure)

/-- server.js:307, with what `fetch` of `set-name` comes to. -/
def publishAnswer : Publishing Published → PublishAnswer
  | .ok out => .success out.ens out
  | .error e => .refused e

/-! ## `GET /read-validation-ens` -/

/-- The endpoints to try (server.js:595). -/
def rpcCandidates (mainnetRpc : Option JsString) : List JsString :=
  ((mainnetRpc.toList ++ [js "https://eth.llamarpc.com", js "https://ethereum.publicnode.com",
    js "https://cloudflare-eth.com"]).filter fun u => !(trim u).isEmpty)

/-- What an endpoint knows of a name: `getText` is `none` where it throws or there is no such record. -/
inductive Resolved where
  | threw (message : JsString)
  | noResolver
  | resolver (getText : JsString → Option JsString)

/-- The body of the loop of server.js:632, with the error that it leaves in `lastErr`. -/
def readFrom (resolve : JsString → Resolved) (rpc : JsString) :
    Except JsString (JsString × List (JsString × JsValue)) :=
  match resolve (trim rpc) with
  | .threw message => .error message
  | .noResolver => .error (js "no resolver")
  | .resolver getText =>
    .ok (trim rpc, VALIDATION_ENS_TEXT_KEYS.map fun key => (key, (getText key).elim .null .str))

/-- `ns.reason`. -/
def ReadResult.reason : ReadResult → JsString
  | .notASubdomain _ => js "not_a_subdomain"
  | .namestoneHttp _ _ => js "namestone_http"
  | .namestoneBadJson => js "namestone_bad_json"
  | .namestoneNotFound _ => js "namestone_not_found"
  | .ok _ _ => []

/-- `ns.detail || ""`. -/
def ReadResult.detail : ReadResult → JsString
  | .notASubdomain detail => detail
  | .namestoneHttp _ detail => detail
  | .namestoneBadJson => []
  | .namestoneNotFound detail => detail
  | .ok _ _ => []

/-- What `buildPayload` (server.js:603) makes, with what it is made for. -/
structure ReadPayload where
  ens : JsString
  source : JsString
  records : List (JsString × JsValue)
  history : JsValue
  extra : List (JsString × JsString)

def buildPayload (ensName source : JsString) (records : List (JsString × JsValue))
    (extra : List (JsString × JsString)) : ReadPayload :=
  { ens := ensName, source, records, history := payloadHistory records, extra }

inductive ReadAnswer where
  | missing
  | payload (p : ReadPayload)
  | unavailable (error : JsString) (namestone : ReadResult)
  | failed (e : Failure)

def ReadAnswer.code : ReadAnswer → ℕ
  | .missing => 400
  | .payload _ => 200
  | .unavailable _ _ => 502
  | .failed _ => 500

/-- `(req.query.ens || "").trim()`, `none` where there is no such method. -/
def ensNameOf (ens : JsValue) : Option JsString :=
  if truthy ens then ens.str?.map trim else some []

/-- server.js:646 for the endpoint that has a resolver, server.js:656 where none has. -/
def ensAnswer (ensName : JsString) (ns : ReadResult) :
    Except JsString (JsString × List (JsString × JsValue)) → ReadAnswer
  | .ok (rpc, records) => .payload (buildPayload ensName (js "ens") records
      [(js "mainnetRpc", rpc), (js "namestoneFallback", ns.reason)])
  | .error lastErr => .unavailable lastErr ns

/-- server.js:588, `none` where the handler throws in front of its `try`. -/
def readValidationEns (config : NamestoneConfig) (mainnetRpc : Option JsString)
    (getNames : GetNames → Fetched) (resolve : JsString → JsString → Resolved) (ens : JsValue) :
    Option ReadAnswer :=
  (ensNameOf ens).map fun ensName =>
    if ensName = [] then .missing
    else
      match readValidationTextRecordsViaNameStone config ensName getNames with
      | .error e => .failed e
      | .ok (.ok records matched) => .payload (buildPayload ensName (js "namestone") records
          [(js "matched", matched), (js "hint",
            js "Include Authorization (API key) on get-names if your subnames are private.")])
      | .ok ns => ensAnswer ensName ns (firstOk (readFrom (resolve ensName)) []
          (some (ns.reason ++ js ": " ++ ns.detail)) (rpcCandidates mainnetRpc))

/-! ## What `GET /history` shows -/

/-- The number of records that a limit asks for: 3 of what is no positive number, and all of them of
what is less than 1, as `-0` is not an end to count from. -/
def wanted (total : ℕ) : JsNum → ℕ
  | .fin x => if x.val ≤ 0 then 3 else if x.val < 1 then total else ⌊x.val⌋.toNat
  | _ => 3

/-- A whole number from the end, where it is not zero. -/
theorem sliceFrom_neg {α : Type} (xs : List α) {y : Double} {m : ℕ} (hy : y.val = -m) :
    sliceFrom xs (.fin y) = xs.drop (xs.length - if m = 0 then xs.length else m) := by
  have hk : (if 0 ≤ y.val then ⌊y.val⌋ else ⌈y.val⌉) = -(m : ℤ) := by
    have hint : y.val = ((-(m : ℤ) : ℤ) : ℚ) := by
      rw [hy]
      push_cast
      rfl
    rw [hint, Int.floor_intCast, Int.ceil_intCast, ite_self]
  rw [sliceFrom]
  simp only [hk]
  by_cases hm : m = 0
  · subst hm
    simp
  · rw [if_pos (by omega), if_neg hm, neg_neg, Int.toNat_natCast]

theorem historyLimit_neg (n : JsNum) (total : ℕ) : ∃ (y : Double) (m : ℕ),
    (historyLimit n).neg = .fin y ∧ y.val = -m ∧ (if m = 0 then total else m) = wanted total n := by
  obtain ⟨three, h3, hthree⟩ := ofRat_exact (q := 3) (by decide +kernel)
  obtain ⟨zero, h0, hzero⟩ := ofRat_exact (q := 0) (by decide +kernel)
  have hdefault : ∀ w, w = 3 → historyLimit n = .fin three → ∃ (y : Double) (m : ℕ),
      (historyLimit n).neg = .fin y ∧ y.val = -m ∧ (if m = 0 then total else m) = w := by
    rintro w rfl hlimit
    rw [hlimit]
    refine ⟨three.neg, 3, rfl, ?_, if_neg (by decide)⟩
    have hneg : three.neg.val = -three.val := rfl
    rw [hneg, hthree]
    rfl
  cases n with
  | nan => exact hdefault _ rfl (by rw [historyLimit, if_neg (by simp [JsNum.isFinite]), h3])
  | infinity neg => exact hdefault _ rfl (by rw [historyLimit, if_neg (by simp [JsNum.isFinite]), h3])
  | fin x =>
    have hlt : (ofRat 0).lt (.fin x) = true ↔ 0 < x.val := by
      rw [h0, JsNum.lt, decide_eq_true_eq, hzero]
    by_cases hx : 0 < x.val
    · have hfloor := round_of_isDouble (isDouble_floor (isDouble_of_round x.rep))
      have hlimit : historyLimit (.fin x) = .fin ⟨⌊x.val⌋, hfloor⟩ := by
        rw [historyLimit, if_pos ⟨rfl, hlt.2 hx⟩, JsNum.floor]
        exact ofRat_of_round hfloor
      have hnat : ((⌊x.val⌋.toNat : ℤ) : ℚ) = ⌊x.val⌋ := by
        rw [Int.toNat_of_nonneg (Int.floor_nonneg.2 hx.le)]
      rw [hlimit, wanted, if_neg (not_le.2 hx)]
      refine ⟨_, ⌊x.val⌋.toNat, rfl, congrArg Neg.neg hnat.symm, ?_⟩
      by_cases hone : x.val < 1
      · have hzero : ⌊x.val⌋.toNat = 0 := by
          rw [Int.floor_eq_zero_iff.2 ⟨hx.le, hone⟩]
          rfl
        rw [if_pos hzero, if_pos hone]
      · have hpos : 1 ≤ ⌊x.val⌋ := Int.le_floor.2 (by exact_mod_cast not_lt.1 hone)
        rw [if_neg (by omega), if_neg hone]
    · refine hdefault _ (if_pos (not_lt.1 hx)) ?_
      rw [historyLimit, if_neg fun h => hx (hlt.1 h.2), h3]

/-- **What `GET /history` shows**: the newest records first, as many as are wanted. -/
theorem getHistory_eq {file : File} {history : List JsValue} (h : readHistory file = some history)
    (limit : JsNum) : getHistory file limit = some
      { total := history.length
        count := min (wanted history.length limit) history.length
        items := history.reverse.take (wanted history.length limit) } := by
  obtain ⟨y, m, hneg, hy, hm⟩ := historyLimit_neg limit history.length
  have hitems : (sliceFrom history (historyLimit limit).neg).reverse =
      history.reverse.take (wanted history.length limit) := by
    rw [hneg, sliceFrom_neg history hy, hm, List.take_reverse]
  rw [getHistory, h, Option.map_some]
  simp only [hitems, List.length_take, List.length_reverse]

/-! ## What `GET /read-validation-ens` answers -/

section
variable {config : NamestoneConfig} {mainnetRpc : Option JsString} {getNames : GetNames → Fetched}
  {resolve : JsString → JsString → Resolved} {ensName : JsString}

/-- A name as it is asked for. -/
theorem ensNameOf_str (h : ensName ≠ []) : ensNameOf (.str ensName) = some (trim ensName) := by
  have htruthy : truthy (.str ensName) = true := by
    cases ensName with
    | nil => exact absurd rfl h
    | cons u r => rfl
  rw [ensNameOf, if_pos htruthy]
  rfl

theorem readValidationEns_namestone {records : List (JsString × JsValue)} {matched : JsString}
    (htrim : trim ensName = ensName) (hne : ensName ≠ [])
    (hread : readValidationTextRecordsViaNameStone config ensName getNames =
      .ok (.ok records matched)) :
    readValidationEns config mainnetRpc getNames resolve (.str ensName) =
      some (.payload (buildPayload ensName (js "namestone") records [(js "matched", matched),
        (js "hint",
          js "Include Authorization (API key) on get-names if your subnames are private.")])) := by
  rw [readValidationEns, ensNameOf_str hne, htrim, Option.map_some, if_neg hne, hread]

theorem readFrom_eq_ok {rpc : JsString} {r : JsString × List (JsString × JsValue)} :
    readFrom (resolve ensName) rpc = .ok r ↔ ∃ getText,
      resolve ensName (trim rpc) = .resolver getText ∧ r = (trim rpc,
        VALIDATION_ENS_TEXT_KEYS.map fun key => (key, (getText key).elim .null .str)) := by
  rw [readFrom]
  cases resolve ensName (trim rpc) with
  | threw message => simp
  | noResolver => simp
  | resolver getText => simp [eq_comm]

/-- **Where NameStone does not answer**, the first endpoint that has a resolver does. -/
theorem readValidationEns_ens {ns : ReadResult} {p : ReadPayload} (htrim : trim ensName = ensName)
    (hne : ensName ≠ [])
    (hread : readValidationTextRecordsViaNameStone config ensName getNames = .ok ns)
    (hns : ∀ records matched, ns ≠ .ok records matched) :
    readValidationEns config mainnetRpc getNames resolve (.str ensName) = some (.payload p) ↔
      ∃ before rpc after getText, rpcCandidates mainnetRpc = before ++ rpc :: after ∧
        resolve ensName (trim rpc) = .resolver getText ∧
        (∀ rpc' ∈ before, ∀ getText', resolve ensName (trim rpc') ≠ .resolver getText') ∧
        p = buildPayload ensName (js "ens")
          (VALIDATION_ENS_TEXT_KEYS.map fun key => (key, (getText key).elim .null .str))
          [(js "mainnetRpc", trim rpc), (js "namestoneFallback", ns.reason)] := by
  have hanswer : readValidationEns config mainnetRpc getNames resolve (.str ensName) =
      some (ensAnswer ensName ns (firstOk (readFrom (resolve ensName)) []
        (some (ns.reason ++ js ": " ++ ns.detail)) (rpcCandidates mainnetRpc))) := by
    rw [readValidationEns, ensNameOf_str hne, htrim, Option.map_some, if_neg hne, hread]
    cases ns with
    | ok records matched => exact absurd rfl (hns records matched)
    | _ => rfl
  rw [hanswer, Option.some.injEq]
  constructor
  · intro h
    cases hfirst : firstOk (readFrom (resolve ensName)) [] (some (ns.reason ++ js ": " ++ ns.detail))
        (rpcCandidates mainnetRpc) with
    | error lastErr =>
      rw [hfirst] at h
      cases h
    | ok found =>
      rw [hfirst] at h
      obtain ⟨before, rpc, after, hlist, hread, hbefore⟩ := firstOk_eq_ok.1 hfirst
      obtain ⟨getText, hresolve, rfl⟩ := readFrom_eq_ok.1 hread
      cases h
      refine ⟨before, rpc, after, getText, hlist, hresolve, fun rpc' hrpc getText' h => ?_, rfl⟩
      obtain ⟨e, he⟩ := hbefore rpc' hrpc
      rw [readFrom_eq_ok.2 ⟨getText', h, rfl⟩] at he
      cases he
  · rintro ⟨before, rpc, after, getText, hlist, hresolve, hbefore, rfl⟩
    have hread := readFrom_eq_ok.2 ⟨getText, hresolve, rfl⟩
    have hfailed : ∀ rpc' ∈ before, ∃ e, readFrom (resolve ensName) rpc' = .error e := by
      intro rpc' hrpc
      cases hread' : readFrom (resolve ensName) rpc' with
      | error e => exact ⟨e, rfl⟩
      | ok found =>
        obtain ⟨getText', h, -⟩ := readFrom_eq_ok.1 hread'
        exact absurd h (hbefore rpc' hrpc getText')
    rw [firstOk_eq_ok.2 ⟨before, rpc, after, hlist, hread, hfailed⟩]
    rfl

end

/-! ## Requests and publishes -/

/-- The backend with its history file, and the rows of NameStone, which others write to as well. -/
structure Site where
  recorder : Recorder
  rows : List SetName

inductive SiteAction where
  | request (a : Action)
  /-- A publish: whether NameStone stores the row, and what comes back. -/
  | publish (now : JsString) (options : JsValue) (stores : Bool) (reply : Fetched)
  /-- A capsule of the web app gets a name. -/
  | capsule (bytes : List UInt8) (request : SetName)

/-- `set-name` replaces the row of its name and domain. -/
def upsert (row : SetName) (rows : List SetName) : List SetName :=
  row :: rows.filter fun row' => ¬ (row'.domain = row.domain ∧ row'.name = row.name)

/-- What a publish has to say to NameStone. -/
def Site.prepare (config : NamestoneConfig) (address : JsString) (s : Site) (now : JsString)
    (options : JsValue) : Publishing Prepared :=
  preparePublish config address now options (readHistory s.recorder.file)

/-- The row that an action writes. A reply that tells of success comes of a row that was stored. -/
def Site.writes (config : NamestoneConfig) (address : JsString) (s : Site) :
    SiteAction → Option SetName
  | .request _ => none
  | .publish now options stores reply =>
    match s.prepare config address now options with
    | .error _ => none
    | .ok p => if stores || (replyOf config p reply).isOk then some p.request else none
  | .capsule bytes request => if request.name = js "cap-" ++ hexText bytes then some request else none

def Site.step (E : Ethers) (syntaxError : JsString) (config : NamestoneConfig) (address : JsString)
    (s : Site) (a : SiteAction) : Option Site :=
  match a with
  | .request a => (s.recorder.step E syntaxError a).map fun recorder => { s with recorder }
  | a => some { s with rows := (s.writes config address a).elim s.rows (upsert · s.rows) }

def site (E : Ethers) (syntaxError : JsString) (config : NamestoneConfig) (address : JsString)
    (file : File) : Lts Site SiteAction :=
  ⟨⟨⟨Server.init, file⟩, []⟩, Site.step E syntaxError config address⟩

/-! ## What is in the file -/

/-- The file holds these records, and JSON reads them as they are. -/
structure Holds (file : File) (history : List JsValue) : Prop where
  read : readHistory file = some history
  fixed : elementsJson history = history

theorem holds_none : Holds none [] := ⟨rfl, rfl⟩

theorem holds_historyBytes (history : List JsValue) :
    Holds (some (historyBytes history)) (elementsJson history) :=
  ⟨readHistory_written history, elementsJson_elementsJson history⟩

/-- What is appended comes behind what is there. -/
theorem appendAll_holds {file : File} {history : List JsValue} (h : Holds file history)
    (records : List HistoryRecord) : ∃ newer, Holds (appendAll file records) (history ++ newer) := by
  induction records generalizing file history with
  | nil => exact ⟨[], by rwa [List.append_nil]⟩
  | cons record records ih =>
    obtain ⟨bs, hbs, hread⟩ := readHistory_append record.toJson h.read
    rw [h.fixed] at hread
    have hholds : Holds (some bs) (history ++ [asJson record.toJson]) := by
      refine ⟨hread, ?_⟩
      rw [elementsJson_append, h.fixed, elementsJson, elementsJson, asJson_asJson]
    obtain ⟨newer, hnewer⟩ := ih hholds
    rw [appendAll, hbs]
    exact ⟨asJson record.toJson :: newer, by simpa using hnewer⟩

section
variable {E : Ethers} {syntaxError address : JsString} {config : NamestoneConfig} {file : File}
  {s t : Site} {history : List JsValue}

/-- No action takes records away. -/
theorem step_holds {a : SiteAction} (h : Holds s.recorder.file history)
    (hstep : s.step E syntaxError config address a = some t) :
    ∃ newer, Holds t.recorder.file (history ++ newer) := by
  cases a with
  | request a =>
    obtain ⟨recorder, hrecorder, rfl⟩ := Option.map_eq_some_iff.1 hstep
    obtain ⟨server, -, rfl⟩ := Option.map_eq_some_iff.1 hrecorder
    exact appendAll_holds h _
  | _ =>
    cases hstep
    exact ⟨[], by rwa [List.append_nil]⟩

theorem run_holds {as : List SiteAction} (h : Holds s.recorder.file history)
    (hrun : (site E syntaxError config address file).run s as = some t) :
    ∃ newer, Holds t.recorder.file (history ++ newer) := by
  refine Lts.run_inv (P := fun t => ∃ newer, Holds t.recorder.file (history ++ newer)) ?_
    ⟨[], by rwa [List.append_nil]⟩ hrun
  rintro s a t ⟨newer, hs⟩ hstep
  obtain ⟨newer', ht⟩ := step_holds hs hstep
  exact ⟨newer ++ newer', by rwa [← List.append_assoc]⟩

/-! ## What NameStone holds -/

theorem mem_upsert {row row' : SetName} {rows : List SetName} :
    row' ∈ upsert row rows ↔
      row' = row ∨ row' ∈ rows ∧ ¬ (row'.domain = row.domain ∧ row'.name = row.name) := by
  simp only [upsert, List.mem_cons, List.mem_filter, decide_eq_true_eq]

theorem rows_upsert {row : SetName} {rows : List SetName} (h : Rows rows) (hrow : Written row) :
    Rows (upsert row rows) := by
  refine ⟨fun row' hrow' => ?_, fun a ha b hb hdomain hname => ?_⟩
  · rcases mem_upsert.1 hrow' with rfl | ⟨hold, -⟩
    · exact hrow
    · exact h.written row' hold
  · rcases mem_upsert.1 ha with rfl | ⟨ha, hne⟩
    · rcases mem_upsert.1 hb with rfl | ⟨hb, hne⟩
      · rfl
      · exact absurd ⟨hdomain.symm, hname.symm⟩ hne
    · rcases mem_upsert.1 hb with rfl | ⟨hb, -⟩
      · exact absurd ⟨hdomain, hname⟩ hne
      · exact h.unique a ha b hb hdomain hname

theorem writes_written {a : SiteAction} {row : SetName} (h : s.writes config address a = some row) :
    Written row := by
  cases a with
  | request a => cases h
  | publish now options stores reply =>
    rw [Site.writes] at h
    cases hp : s.prepare config address now options with
    | error e =>
      rw [hp] at h
      cases h
    | ok p =>
      rw [hp] at h
      obtain ⟨-, hrow⟩ := Option.ite_none_right_eq_some.1 h
      exact Option.some.inj hrow ▸ .history hp
  | capsule bytes request =>
    obtain ⟨hname, hrow⟩ := Option.ite_none_right_eq_some.1 h
    exact Option.some.inj hrow ▸ .capsule hname

/-- What an action does to the rows. -/
theorem step_rows {a : SiteAction} (hstep : s.step E syntaxError config address a = some t) :
    t.rows = (s.writes config address a).elim s.rows fun row => upsert row s.rows := by
  cases a with
  | request a =>
    obtain ⟨recorder, -, rfl⟩ := Option.map_eq_some_iff.1 hstep
    rfl
  | _ =>
    cases hstep
    rfl

theorem step_rowsOk {a : SiteAction} (h : Rows s.rows)
    (hstep : s.step E syntaxError config address a = some t) : Rows t.rows := by
  rw [step_rows hstep]
  cases hrow : s.writes config address a with
  | none => exact h
  | some row => exact rows_upsert h (writes_written hrow)

theorem run_rows {as : List SiteAction} (hs : Rows s.rows)
    (hrun : (site E syntaxError config address file).run s as = some t) : Rows t.rows :=
  Lts.run_inv (P := fun s => Rows s.rows) (fun _ _ _ h hstep => step_rowsOk h hstep) hs hrun

theorem rows_nil : Rows [] :=
  ⟨fun _ h => (List.not_mem_nil h).elim, fun _ h => (List.not_mem_nil h).elim⟩

/-- An action that leaves the row of a name alone. -/
def Spares (config : NamestoneConfig) (address : JsString) (row : SetName) (s : Site)
    (a : SiteAction) : Prop :=
  ∀ row', s.writes config address a = some row' → ¬ (row.domain = row'.domain ∧ row.name = row'.name)

theorem run_kept {as : List SiteAction} {row : SetName} (hrow : row ∈ s.rows)
    (hspares : (site E syntaxError config address file).Meets (Spares config address row) s as)
    (hrun : (site E syntaxError config address file).run s as = some t) : row ∈ t.rows := by
  refine Lts.run_inv_of_meets (P := fun s => row ∈ s.rows) (fun s a t hs hspare hstep => ?_) hrow
    hspares hrun
  rw [step_rows hstep]
  cases hwrites : s.writes config address a with
  | none => exact hs
  | some row' => exact mem_upsert.2 (Or.inr ⟨hs, hspare row' hwrites⟩)

end

/-! ## What a publish is made of -/

section
variable {config : NamestoneConfig} {address now : JsString} {options : JsValue} {p : Prepared}
  {history : List JsValue}

theorem requestOf_total {total : ℕ} {full : Bool} {slice : List JsValue} {description : JsString}
    (h : requestOf config address now options total full slice description = .ok p) :
    p.total = total := by
  by_cases hfits : Fits slice
  · obtain ⟨hthrows, -⟩ | ⟨subdomain, label, -, hok⟩ :=
      @requestOf_cases config address now options total full slice description hfits
    · rw [hthrows] at h
      cases h
    · rw [hok] at h
      cases h
      rfl
  · unfold requestOf at h
    rw [if_pos hfits] at h
    cases h

/-- **What is published is an end of the history**, with its length. -/
theorem preparePublish_suffix
    (h : preparePublish config address now options (some history) = .ok p) :
    p.slice <:+ history ∧ p.total = history.length := by
  have hconfig : config.apiKey ≠ [] ∧ config.parentDomain ≠ [] := by
    refine not_or.1 fun hmissing => ?_
    unfold preparePublish at h
    rw [if_pos hmissing] at h
    cases h
  by_cases hfull : isFull options = true
  · rw [preparePublish_eq hconfig hfull] at h
    obtain ⟨slice, hslice, h⟩ := bind_eq_ok.1 h
    obtain ⟨hsame, -⟩ := requestOf_ok h
    refine ⟨?_, requestOf_total h⟩
    obtain ⟨n, hn, -⟩ := bind_eq_ok.1 hslice
    have hn : (options.get (js "maxEntries")).toNumber = some n := by
      cases hnum : (options.get (js "maxEntries")).toNumber with
      | none =>
        rw [hnum] at hn
        cases hn
      | some n' =>
        rw [hnum] at hn
        cases hn
        rfl
    rw [fullSlice_eq hn] at hslice
    split at hslice
    · cases hslice
      rw [hsame]
      exact (trimSlice_suffix _).trans (List.drop_suffix _ _)
    · cases hslice
  · rw [preparePublish_last hconfig (eq_false_of_ne_true hfull)] at h
    obtain ⟨last, hlast, h⟩ := bind_eq_ok.1 h
    obtain ⟨hsame, -⟩ := requestOf_ok h
    refine ⟨?_, requestOf_total h⟩
    rw [hsame]
    unfold lastSlice at hlast
    cases hgetLast : history.getLast? with
    | none =>
      rw [hgetLast] at hlast
      cases hlast
    | some v =>
      rw [hgetLast] at hlast
      obtain ⟨status, -, hlast⟩ := bind_eq_ok.1 hlast
      obtain ⟨st, -, hlast⟩ := bind_eq_ok.1 hlast
      obtain ⟨receivedAt, -, hlast⟩ := bind_eq_ok.1 hlast
      cases hlast
      rw [← List.dropLast_append_getLast? v hgetLast]
      exact List.suffix_append _ _

end

/-! ## Read back in every run -/

theorem replyOf_ens {config : NamestoneConfig} {p : Prepared} {r : Published} {reply : Fetched}
    (h : replyOf config p reply = .ok r) : r.ens = p.request.name ++ 46 :: config.parentDomain := by
  obtain ⟨-, hreply⟩ | ⟨-, e, hreply, -⟩ := replyOf_cases p reply
  · rw [hreply] at h
    cases h
    rfl
  · rw [hreply] at h
    cases h

/-- A published name is asked for as it is. -/
theorem trim_ens {config : NamestoneConfig} {now : JsString} {p : Prepared}
    (h : Requests config now p) (htwo : TwoLabels config.parentDomain) :
    trim (p.request.name ++ 46 :: config.parentDomain) =
      p.request.name ++ 46 :: config.parentDomain := by
  rw [trim_label h.name, htwo.trimmed]

theorem total_stored {config : NamestoneConfig} {now : JsString} {p : Prepared}
    (h : Requests config now p) :
    lookup (stored p.request) (js "com.sealedsky.validation_total") = .str (printNat p.total) := by
  have hnd : (keys (stored p.request)).Nodup := by
    rw [keys_stored]
    exact h.distinctKeys
  obtain ⟨description, hrecords⟩ := h.records
  refine lookup_of_mem hnd ?_
  rw [stored, hrecords]
  exact List.mem_cons_of_mem _ List.mem_cons_self

section
variable {E : Ethers} {syntaxError address now : JsString} {config : NamestoneConfig} {file : File}
  {initial : List JsValue} {options : JsValue} {stores : Bool} {reply : Fetched}
  {before after : List SiteAction} {m m' t : Site} {p : Prepared} {r : Published}
  {mainnetRpc : Option JsString} {getNames : GetNames → Fetched}
  {resolve : JsString → JsString → Resolved}

/-- A publish that was answered with success has stored its row. -/
theorem publish_mem (hprepared : m.prepare config address now options = .ok p)
    (hreply : replyOf config p reply = .ok r)
    (hpublish : m.step E syntaxError config address (.publish now options stores reply) = some m') :
    p.request ∈ m'.rows := by
  have hwrites : m.writes config address (.publish now options stores reply) = some p.request := by
    have hok : (stores || (replyOf config p reply).isOk) = true := by
      rw [hreply]
      exact Bool.or_true _
    simp only [Site.writes, hprepared, hok, if_true]
  rw [step_rows hpublish, hwrites]
  exact mem_upsert.2 (Or.inl rfl)

/-- A row that is stored is read back, as it was published. -/
theorem read_published {history : List JsValue} (mainnetRpc : Option JsString)
    (resolve : JsString → JsString → Resolved) (hfixed : elementsJson history = history)
    (hlower : toLowerCase config.parentDomain = config.parentDomain)
    (htwo : TwoLabels config.parentDomain)
    (hprep : preparePublish config address now options (some history) = .ok p)
    (hreply : replyOf config p reply = .ok r) (hrows : Rows t.rows) (hstored : p.request ∈ t.rows)
    (hcount : (under config.parentDomain t.rows).length ≤ 500)
    (hserves : Serves config t.rows getNames) :
    ∃ answer, readValidationEns config mainnetRpc getNames resolve (.str r.ens) =
        some (.payload answer) ∧ answer.ens = r.ens ∧ answer.source = js "namestone" ∧
      answer.history = .arr p.slice ∧
      lookup answer.records (js "com.sealedsky.validation_total") =
        .str (printNat history.length) := by
  obtain ⟨hsuffix, htotal⟩ := preparePublish_suffix hprep
  obtain ⟨hkey, -, hrequests⟩ := preparePublish_ok hprep
  have hread := read_stored hkey hlower htwo hrequests hrows hstored hcount hserves
  have hens := replyOf_ens hreply
  have hslice : elementsJson p.slice = p.slice := elementsJson_eq_self_iff.2 fun v hv =>
    elementsJson_eq_self_iff.1 hfixed v (hsuffix.subset hv)
  refine ⟨_, readValidationEns_namestone (hens ▸ trim_ens hrequests htwo) ?_ (hens ▸ hread), rfl, rfl,
    ?_, ?_⟩
  · rw [hens]
    simp
  · have hpayload := payloadHistory_stored hrequests
    rw [hslice] at hpayload
    exact hpayload
  · have hlookup := total_stored hrequests
    rw [htotal] at hlookup
    exact hlookup

/-- **In every run** whose file operations go through, under a domain of two labels with at most 500 rows,
where a publish was answered with success, its name not published again since, and NameStone serves what
it holds: the name that was given out is read back, from NameStone, with an end of the history as it was,
which more records have come behind by now. -/
theorem run_read_published (mainnetRpc : Option JsString) (resolve : JsString → JsString → Resolved)
    (hfile : Holds file initial) (hlower : toLowerCase config.parentDomain = config.parentDomain)
    (htwo : TwoLabels config.parentDomain)
    (hbefore : (site E syntaxError config address file).run
      (site E syntaxError config address file).init before = some m)
    (hprepared : m.prepare config address now options = .ok p)
    (hreply : replyOf config p reply = .ok r)
    (hpublish : m.step E syntaxError config address (.publish now options stores reply) = some m')
    (hafter : (site E syntaxError config address file).run m' after = some t)
    (hspares : (site E syntaxError config address file).Meets (Spares config address p.request) m' after)
    (hcount : (under config.parentDomain t.rows).length ≤ 500)
    (hserves : Serves config t.rows getNames) :
    ∃ history newer, readHistory m.recorder.file = some history ∧
      readHistory t.recorder.file = some (history ++ newer) ∧ p.slice <:+ history ∧
      ∃ answer, readValidationEns config mainnetRpc getNames resolve (.str r.ens) =
          some (.payload answer) ∧ answer.ens = r.ens ∧ answer.source = js "namestone" ∧
        answer.history = .arr p.slice ∧
        lookup answer.records (js "com.sealedsky.validation_total") =
          .str (printNat history.length) := by
  obtain ⟨early, hm⟩ := run_holds hfile hbefore
  have hrest : (site E syntaxError config address file).run m
      (.publish now options stores reply :: after) = some t :=
    (Lts.run_cons _).2 ⟨m', hpublish, hafter⟩
  obtain ⟨newer, ht⟩ := run_holds hm hrest
  have hprep : preparePublish config address now options (some (initial ++ early)) = .ok p := by
    rw [← hm.read]
    exact hprepared
  have hinit : Rows (site E syntaxError config address file).init.rows := rows_nil
  have hrows : Rows t.rows := run_rows (run_rows hinit hbefore) hrest
  have hstored : p.request ∈ t.rows := run_kept (publish_mem hprepared hreply hpublish) hspares hafter
  exact ⟨initial ++ early, newer, hm.read, ht.read, (preparePublish_suffix hprep).1,
    read_published mainnetRpc resolve hm.fixed hlower htwo hprep hreply hrows hstored hcount hserves⟩

end

/-- A publish with no options that NameStone stores. -/
def publishAll : SiteAction :=
  .publish (js "2026-05-09T12:00:00.000Z") (.obj []) true (.response 200 (js "OK") none)

/-- Another name. -/
def someCapsule : SetName := ⟨js "id144.eth", js "cap-" ++ hexText [1], [], []⟩

/-- A history is published, and then a capsule gets a name. -/
theorem published_all (E : Ethers) (syntaxError : JsString) {s : Site} {history : List JsValue}
    {p : Prepared} (hfile : readHistory s.recorder.file = some history) (hrows : s.rows = [])
    (hp : prepareSmall (.obj []) history = .ok p) (hname : p.request.name = js "oracle-validation") :
    ∃ r, s.prepare smallConfig (js "0x01") (js "2026-05-09T12:00:00.000Z") (.obj []) = .ok p ∧
      replyOf smallConfig p (.response 200 (js "OK") none) = .ok r ∧
      s.step E syntaxError smallConfig (js "0x01") publishAll = some { s with rows := [p.request] } ∧
      Site.step E syntaxError smallConfig (js "0x01") { s with rows := [p.request] }
        (.capsule [1] someCapsule) = some { s with rows := [someCapsule, p.request] } ∧
      Spares smallConfig (js "0x01") p.request { s with rows := [p.request] }
        (.capsule [1] someCapsule) ∧
      Serves smallConfig [someCapsule, p.request] (serve [someCapsule, p.request]) := by
  have hprepared : s.prepare smallConfig (js "0x01") (js "2026-05-09T12:00:00.000Z") (.obj []) =
      .ok p := by
    rw [Site.prepare, hfile]
    exact hp
  have hne : p.request.name ≠ someCapsule.name := by
    rw [hname]
    decide
  have hwrites : ∀ s : Site, s.writes smallConfig (js "0x01") (.capsule [1] someCapsule) =
      some someCapsule := fun s => by simp [Site.writes, someCapsule]
  refine ⟨_, hprepared, rfl, ?_, ?_, fun row hrow hsame => ?_, serves_serve smallConfig fun row hrow => ?_⟩
  · simp [Site.step, Site.writes, publishAll, hprepared, upsert, hrows]
  · simp [Site.step, hwrites, upsert, hne]
  · rw [hwrites] at hrow
    exact hne (Option.some.inj hrow ▸ hsame.2)
  · rcases List.mem_cons.1 hrow with rfl | hrow
    · exact List.nodup_nil
    · rw [List.mem_singleton.1 hrow]
      exact (preparePublish_ok hp).2.2.distinctKeys

theorem run_read_published_two : ∃ (t : Site) (history newer rows : List JsValue) (r : Published),
    history.length = 2 ∧ readHistory t.recorder.file = some (history ++ newer) ∧ rows.length = 2 ∧
      rows <:+ history ∧ ∃ answer, readValidationEns smallConfig none (serve t.rows)
          (fun _ _ => .noResolver) (.str r.ens) = some (.payload answer) ∧
        answer.source = js "namestone" ∧ answer.history = .arr rows := by
  have hp : ∃ p, prepareSmall (.obj []) (elementsJson
      [.obj [(js "status", .str (js "accepted"))], rejection]) = .ok p ∧
      (p.request.name, p.slice.length) = (js "oracle-validation", 2) :=
    ok_of_map (by decide +kernel)
  obtain ⟨p, hp, hnamed⟩ := hp
  obtain ⟨hname, hslice⟩ := Prod.mk.inj hnamed
  let m : Site := ⟨⟨Server.init, twoRecords⟩, []⟩
  have hfile : readHistory m.recorder.file = some (elementsJson
      [.obj [(js "status", .str (js "accepted"))], rejection]) := readHistory_twoRecords
  obtain ⟨r, hprepared, hreply, hpublish, hcapsule, hspares, hserves⟩ :=
    published_all (s := m) ethersOf [] hfile rfl hp hname
  have hafter : (site ethersOf [] smallConfig (js "0x01") twoRecords).run { m with rows := [p.request] }
      [.capsule [1] someCapsule] = some { m with rows := [someCapsule, p.request] } :=
    (Lts.run_cons _).2 ⟨_, hcapsule, rfl⟩
  have hmeets : (site ethersOf [] smallConfig (js "0x01") twoRecords).Meets
      (Spares smallConfig (js "0x01") p.request) { m with rows := [p.request] }
      [.capsule [1] someCapsule] := (Lts.meets_cons _ hcapsule).2 ⟨hspares, trivial⟩
  obtain ⟨history, newer, hbefore, hread, hend, answer, hanswer, -, hsource, hhistory, -⟩ :=
    run_read_published none (fun _ _ => .noResolver) (holds_historyBytes _) (by decide)
      ⟨by decide, by decide⟩ (Lts.run_nil _ _) hprepared hreply hpublish hafter hmeets
      ((List.length_filter_le _ _).trans (by simp)) hserves
  have hlength : history.length = 2 := by
    have hsame := hbefore.symm.trans hfile
    rw [Option.some.inj hsame]
    rfl
  exact ⟨_, history, newer, p.slice, r, hlength, hread, hslice, hend, answer, hanswer, hsource,
    hhistory⟩

end SealedSky.Backend
