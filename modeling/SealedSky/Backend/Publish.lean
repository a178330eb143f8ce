import SealedSky.Backend.EnsLabel
import SealedSky.Js.Arith
import SealedSky.Lib.Fallible

/-!
# Publishing the history (`backend/server.js:109-291`)

`publishValidationHistoryToEns` puts the JSON text of the last records into one text record. The number
of records is clamped, the slice is taken from the end, and while its text is too long the oldest record
is dropped.

* `fits_of_suffix` — a part of a slice has no longer text.
* `trimSlice_longest` — the loop keeps as many records as fit, but always one.
* `preparePublish_full`, `publish_full` — what is published is the longest end of the history that
  fits, and when it is refused.
-/
namespace SealedSky.Backend

open Js Binary64 Fallible

/-- What ends `publishValidationHistoryToEns` early: an exception of the engine or of `fetch`, or an
`Error` of its own. -/
inductive Failure where
  | engine
  | error (message : JsString)
  deriving DecidableEq

abbrev Publishing := Except Failure

/-- What throws in the engine, if anything. -/
def orThrow {α : Type} : Option α → Publishing α
  | some x => .ok x
  | none => .error .engine

structure NamestoneConfig where
  apiKey : JsString
  parentDomain : JsString

/-- server.js:109. -/
def namestoneConfig (env : JsString → Option JsString) : NamestoneConfig :=
  let first (names : List JsString) := ((names.filterMap env).find? fun v => !v.isEmpty).getD []
  { apiKey := first [js "NAMESTONE_API_KEY", js "VITE_NAMESTONE_API_KEY"]
    parentDomain := first [js "NAMESTONE_DOMAIN", js "VITE_NAMESTONE_DOMAIN"] }

/-- Any configuration is that of some environment. -/
theorem exists_namestoneConfig (config : NamestoneConfig) :
    ∃ env, namestoneConfig env = config := by
  obtain ⟨apiKey, parentDomain⟩ := config
  have hkeep : ∀ v : JsString,
      (([some v, none].filterMap id).find? fun v => !v.isEmpty).getD [] = v := by
    intro v
    cases v <;> rfl
  refine ⟨fun name => if name = js "NAMESTONE_API_KEY" then some apiKey
    else if name = js "NAMESTONE_DOMAIN" then some parentDomain else none, ?_⟩
  exact congrArg₂ NamestoneConfig.mk (hkeep apiKey) (hkeep parentDomain)

/-! ## The slice -/

/-- `Math.max(x, y)`. -/
def mathMax (x y : JsNum) : JsNum :=
  if x = .nan ∨ y = .nan then .nan else if x.lt y then y else x

/-- `Math.min(x, y)`. -/
def mathMin (x y : JsNum) : JsNum :=
  if x = .nan ∨ y = .nan then .nan else if x.lt y then x else y

/-- `xs.slice(start)`. -/
def sliceFrom {α : Type} (xs : List α) : JsNum → List α
  | .nan => xs
  | .infinity neg => if neg then xs else []
  | .fin x =>
    let k := if 0 ≤ x.val then ⌊x.val⌋ else ⌈x.val⌉
    if k < 0 then xs.drop (xs.length - (-k).toNat) else xs.drop k.toNat

/-- `maxEntries`, of what `Number(options.maxEntries)` is. -/
def maxEntries (n : JsNum) : JsNum :=
  mathMin (mathMax (if truthy (.num n) then n else ofRat 200) (ofRat 1)) (ofRat 500)

def maxLen : ℕ := 45000

/-- The text of a slice is not too long. -/
def Fits (slice : List JsValue) : Prop := (jsonText (.arr slice)).length ≤ maxLen

instance (slice : List JsValue) : Decidable (Fits slice) := inferInstanceAs (Decidable (_ ≤ _))

/-- The loop of server.js:227. -/
def trimSlice : List JsValue → List JsValue
  | v :: w :: r => if Fits (v :: w :: r) then v :: w :: r else trimSlice (w :: r)
  | slice => slice

def tooLarge : JsString :=
  js "Validation history JSON is too large for one ENS text record; reduce maxEntries or shorten " ++
    js "stored fields"

/-- The slice of `scope: "full"` (server.js:219). -/
def fullSlice (options : JsValue) (history : List JsValue) : Publishing (List JsValue) := do
  let n ← orThrow (options.get (js "maxEntries")).toNumber
  let slice := trimSlice (sliceFrom history (maxEntries n).neg)
  if Fits slice then .ok slice else .error (.error tooLarge)

def printNat (n : ℕ) : JsString := toString (ofRat n)

/-- `v.k`, which throws on `null` and `undefined`. -/
def member (v : JsValue) (k : JsString) : Publishing JsValue :=
  match v with
  | .undefined => .error .engine
  | .null => .error .engine
  | v => .ok (v.get k)

/-- `v || text`. -/
def orText (v : JsValue) (text : JsString) : JsValue := if truthy v then v else .str text

/-- The slice of `scope: "last"` and its description (server.js:211). -/
def lastSlice (history : List JsValue) : Publishing (List JsValue × JsString) := do
  match history.getLast? with
  | none => .error (.error (js "no validation history to publish"))
  | some last =>
    let status ← member last (js "status")
    let st ← orThrow (orText status (js "unknown")).toText
    let receivedAt ← orThrow (orText (last.get (js "receivedAt")) []).toText
    .ok ([last], js "Trusted Edge Oracle — last validation (" ++ st ++ js ", " ++ receivedAt ++ js ")")

/-! ## The request -/

/-- The body of `set-name`. -/
structure SetName where
  domain : JsString
  name : JsString
  address : JsString
  textRecords : List (JsString × JsString)

/-- What has been worked out when `set-name` is called. -/
structure Prepared where
  total : ℕ
  slice : List JsValue
  full : Bool
  request : SetName

/-- What `sanitizeEnsLabel` is called with (server.js:247). -/
def subdomainOf (options : JsValue) (defaultSub : JsString) : Publishing JsValue :=
  match options.get (js "subdomain") with
  | .undefined => .ok (.str defaultSub)
  | .null => .ok (.str defaultSub)
  | v => (orThrow v.toText).map fun text => if trim text = [] then .str defaultSub else v

/-- The records of a slice, under the names of server.js:56. -/
def textRecords (total : ℕ) (full : Bool) (slice : List JsValue) (now description : JsString) :
    List (JsString × JsString) :=
  [(js "com.sealedsky.validation_history", jsonText (.arr slice)),
    (js "com.sealedsky.validation_total", printNat total),
    (js "com.sealedsky.validation_slice", printNat slice.length),
    (js "com.sealedsky.validation_updated_at", now),
    (js "com.sealedsky.validation_app", js "trusted-edge-oracle"),
    (js "com.sealedsky.validation_scope", if full then js "full" else js "last"),
    (js "description", description)]

/-- server.js:239: the request for a slice. -/
def requestOf (config : NamestoneConfig) (address now : JsString) (options : JsValue) (total : ℕ)
    (full : Bool) (slice : List JsValue) (description : JsString) : Publishing Prepared := do
  if ¬ Fits slice then
    .error (.error (js "last validation record JSON is too large for one ENS text record"))
  let subdomain ← subdomainOf options
    (if full then js "oracle-validation" else js "oracle-validation-last")
  let label ← orThrow (sanitizeEnsLabel subdomain)
  .ok
    { total, slice, full
      request :=
        { domain := config.parentDomain, name := label, address
          textRecords := textRecords total full slice now description } }

/-- `scope`: everything but `"last"` is `"full"`. -/
def isFull (options : JsValue) : Bool :=
  decide ((options.get (js "scope")).str? ≠ some (js "last"))

def notConfigured : JsString :=
  js "NameStone not configured: set VITE_NAMESTONE_API_KEY and VITE_NAMESTONE_DOMAIN in " ++
    js "sealed-sky-web/_env.local or .env.local (or NAMESTONE_* in backend/.env)"

/-- server.js:199, up to `fetch`. -/
def preparePublish (config : NamestoneConfig) (address now : JsString) (options : JsValue)
    (history : Option (List JsValue)) : Publishing Prepared := do
  if config.apiKey = [] ∨ config.parentDomain = [] then .error (.error notConfigured)
  let history ← orThrow history
  if isFull options then
    let slice ← fullSlice options history
    requestOf config address now options history.length true slice
      (js "Trusted Edge Oracle validation history (" ++ printNat history.length ++
        js " events, last " ++ printNat slice.length ++ js " published)")
  else
    let (slice, description) ← lastSlice history
    requestOf config address now options history.length false slice description

/-- What comes of a `fetch`: the text of a response may fail to be read. -/
inductive Fetched where
  | failed
  | response (status : ℕ) (statusText : JsString) (text : Option JsString)

/-- `r.ok`. -/
def isOkStatus (status : ℕ) : Bool := decide (200 ≤ status ∧ status ≤ 299)

/-- `text || r.statusText`, with an empty text where it fails to be read. -/
def detailOf (statusText : JsString) (text : Option JsString) : JsString :=
  if text.getD [] = [] then statusText else text.getD []

structure Published where
  ens : JsString
  full : Bool
  truncated : Bool
  total : ℕ
  published : ℕ

/-- server.js:276: what is made of the reply. -/
def replyOf (config : NamestoneConfig) (p : Prepared) : Fetched → Publishing Published
  | .failed => .error .engine
  | .response status statusText text =>
    if isOkStatus status then
      .ok
        { ens := p.request.name ++ 46 :: config.parentDomain
          full := p.full
          truncated := p.full && decide (p.slice.length < p.total)
          total := p.total
          published := p.slice.length }
    else
      .error (.error (js "NameStone set-name HTTP " ++ printNat status ++ js ": " ++
        detailOf statusText text))

/-- server.js:199. -/
def publishValidationHistoryToEns (config : NamestoneConfig) (address now : JsString)
    (options : JsValue) (history : Option (List JsValue)) (setName : SetName → Fetched) :
    Publishing Published := do
  let p ← preparePublish config address now options history
  replyOf config p (setName p.request)

/-! ## The longest end of the history that fits -/

/-- A part of a slice has no longer text. -/
theorem elementsText_suffix {s t : List JsValue} (h : s <:+ t) :
    (elementsText s).length ≤ (elementsText t).length := by
  induction t with
  | nil =>
    rw [List.suffix_nil.1 h]
  | cons v t ih =>
    rcases List.suffix_cons_iff.1 h with rfl | h
    · exact le_refl _
    · have hle := ih h
      rw [elementsText]
      cases t with
      | nil => rw [List.suffix_nil.1 h, elementsText]; exact Nat.zero_le _
      | cons w t =>
        rw [List.isEmpty_cons, if_neg (by decide), List.length_append, List.length_cons]
        omega

theorem fits_of_suffix {s t : List JsValue} (h : s <:+ t) (hfits : Fits t) : Fits s := by
  have hle := elementsText_suffix h
  unfold Fits at hfits ⊢
  rw [jsonText, List.length_cons, List.length_append] at hfits ⊢
  omega

theorem fits_nil : Fits [] := by
  unfold Fits maxLen
  rw [jsonText, elementsText]
  decide

theorem trimSlice_suffix (s : List JsValue) : trimSlice s <:+ s := by
  fun_induction trimSlice s with
  | case1 v w r hfits => exact List.suffix_refl _
  | case2 v w r hfits ih => exact ih.trans (List.suffix_cons v _)
  | case3 s hs => exact List.suffix_refl _

/-- **The loop keeps as many records as fit**, and one where none does. -/
theorem trimSlice_longest (s : List JsValue) :
    (∀ t, t <:+ s → Fits t → t.length ≤ (trimSlice s).length) ∧
      (¬ Fits (trimSlice s) → (trimSlice s).length = 1) := by
  fun_induction trimSlice s with
  | case1 v w r hfits => exact ⟨fun t ht _ => ht.length_le, fun h => absurd hfits h⟩
  | case2 v w r hfits ih =>
    refine ⟨fun t ht htfits => ?_, ih.2⟩
    rcases List.suffix_cons_iff.1 ht with rfl | ht
    · exact absurd htfits hfits
    · exact ih.1 t ht htfits
  | case3 s hs =>
    refine ⟨fun t ht _ => ht.length_le, fun h => ?_⟩
    match s, hs with
    | [], _ => exact absurd fits_nil h
    | [v], _ => rfl
    | v :: w :: r, hs => exact absurd rfl (hs v w r)

theorem trimSlice_ne_nil {s : List JsValue} (h : s ≠ []) : trimSlice s ≠ [] := by
  fun_induction trimSlice s with
  | case1 v w r hfits => simp
  | case2 v w r hfits ih => exact ih (by simp)
  | case3 s hs => exact h

/-- `Number(maxEntries)`, or 200 for `NaN` and 0, between 1 and 500. -/
def clampedEntries : JsNum → ℚ
  | .nan => 200
  | .infinity neg => if neg then 1 else 500
  | .fin x => if x.val = 0 then 200 else min (max x.val 1) 500

def entryLimit (n : JsNum) : ℕ := ⌊clampedEntries n⌋.toNat

theorem clampedEntries_ge (n : JsNum) : 1 ≤ clampedEntries n := by
  cases n with
  | nan => decide
  | infinity neg => cases neg <;> decide
  | fin x =>
    rw [clampedEntries]
    split
    · decide
    · exact le_min (le_max_right _ _) (by decide)

theorem ofRat_exact {q : ℚ} (h : round? q = some q) : ∃ x : Double, ofRat q = .fin x ∧ x.val = q :=
  ⟨⟨q, h⟩, ofRat_of_round (x := ⟨q, h⟩) h, rfl⟩

theorem mathMax_fin (x y : Double) :
    ∃ z, mathMax (.fin x) (.fin y) = .fin z ∧ z.val = max x.val y.val := by
  rw [mathMax, if_neg (by simp)]
  by_cases hlt : x.val < y.val
  · exact ⟨y, if_pos (decide_eq_true hlt), (max_eq_right hlt.le).symm⟩
  · exact ⟨x, if_neg fun h => hlt (of_decide_eq_true h), (max_eq_left (not_lt.1 hlt)).symm⟩

theorem mathMin_fin (x y : Double) :
    ∃ z, mathMin (.fin x) (.fin y) = .fin z ∧ z.val = min x.val y.val := by
  rw [mathMin, if_neg (by simp)]
  by_cases hlt : x.val < y.val
  · exact ⟨x, if_pos (decide_eq_true hlt), (min_eq_left hlt.le).symm⟩
  · exact ⟨y, if_neg fun h => hlt (of_decide_eq_true h), (min_eq_right (not_lt.1 hlt)).symm⟩

theorem truthy_num (x : Double) : truthy (.num (.fin x)) = true ↔ x.val ≠ 0 := by
  obtain ⟨zero, h0, hzero⟩ := ofRat_exact (q := 0) (by decide +kernel)
  rw [truthy, h0, decide_eq_true_eq]
  constructor
  · rintro ⟨-, hne⟩ hx
    exact hne (congrArg JsNum.fin (Double.ext (hx.trans hzero.symm)))
  · intro hx
    refine ⟨by simp, fun heq => hx ?_⟩
    rw [JsNum.fin.inj heq, hzero]

/-- **The clamp** gives the limit. -/
theorem maxEntries_val (n : JsNum) : ∃ x, maxEntries n = .fin x ∧ x.val = clampedEntries n := by
  obtain ⟨one, h1, hone⟩ := ofRat_exact (q := 1) (by decide +kernel)
  obtain ⟨high, h500, hhigh⟩ := ofRat_exact (q := 500) (by decide +kernel)
  obtain ⟨dflt, h200, hdflt⟩ := ofRat_exact (q := 200) (by decide +kernel)
  unfold maxEntries
  rw [h1, h500, h200]
  have hclamp : ∀ x : Double, ∃ y, mathMin (mathMax (.fin x) (.fin one)) (.fin high) = .fin y ∧
      y.val = min (max x.val 1) 500 := by
    intro x
    obtain ⟨y, hy, hyval⟩ := mathMax_fin x one
    obtain ⟨z, hz, hzval⟩ := mathMin_fin y high
    rw [hy, hz]
    exact ⟨z, rfl, by rw [hzval, hyval, hone, hhigh]⟩
  have hdefault : min (max dflt.val 1) 500 = 200 := by
    rw [hdflt]
    decide
  cases n with
  | nan =>
    obtain ⟨y, hy, hyval⟩ := hclamp dflt
    exact ⟨y, hy, hyval.trans hdefault⟩
  | infinity neg =>
    have htruthy : truthy (.num (.infinity neg)) = true := by
      cases neg <;> decide +kernel
    rw [if_pos htruthy]
    cases neg with
    | true =>
      obtain ⟨y, hy, hyval⟩ := mathMin_fin one high
      refine ⟨y, hy, ?_⟩
      rw [hyval, hone, hhigh]
      decide
    | false => exact ⟨high, rfl, hhigh⟩
  | fin x =>
    by_cases hx : x.val = 0
    · obtain ⟨y, hy, hyval⟩ := hclamp dflt
      refine ⟨y, ?_, ?_⟩
      · rw [if_neg fun h => (truthy_num x).1 h hx]
        exact hy
      · rw [hyval, hdefault, clampedEntries, if_pos hx]
    · obtain ⟨y, hy, hyval⟩ := hclamp x
      refine ⟨y, ?_, ?_⟩
      · rw [if_pos ((truthy_num x).2 hx)]
        exact hy
      · rw [hyval, clampedEntries, if_neg hx]

/-- A negative start counts from the end. -/
theorem sliceFrom_maxEntries {α : Type} (xs : List α) (n : JsNum) :
    sliceFrom xs (maxEntries n).neg = xs.drop (xs.length - entryLimit n) := by
  obtain ⟨x, hx, hval⟩ := maxEntries_val n
  have hge := clampedEntries_ge n
  have hneg : x.neg.val = -clampedEntries n := by rw [← hval]; rfl
  have hfloor : 1 ≤ ⌊clampedEntries n⌋ := Int.le_floor.2 (by exact_mod_cast hge)
  have hceil : (if 0 ≤ x.neg.val then ⌊x.neg.val⌋ else ⌈x.neg.val⌉) = -⌊clampedEntries n⌋ := by
    rw [hneg, if_neg (by linarith), Int.ceil_neg]
  rw [hx]
  change (if (if 0 ≤ x.neg.val then ⌊x.neg.val⌋ else ⌈x.neg.val⌉) < 0 then _ else _) = _
  simp only [hceil]
  rw [if_pos (by omega), neg_neg]
  rfl

/-- The longest end of a history with at most `limit` records whose text fits. -/
structure LongestSuffix (history : List JsValue) (limit : ℕ) (slice : List JsValue) : Prop where
  suffix : slice <:+ history
  count : slice.length ≤ limit
  fits : Fits slice
  longest : ∀ t, t <:+ history → t.length ≤ limit → Fits t → t.length ≤ slice.length

/-- The slice before and after the loop. -/
def trimmed (history : List JsValue) (limit : ℕ) : List JsValue :=
  trimSlice (history.drop (history.length - limit))

theorem trimmed_longest {history : List JsValue} {limit : ℕ} (h : Fits (trimmed history limit)) :
    LongestSuffix history limit (trimmed history limit) := by
  have hsuffix := trimSlice_suffix (history.drop (history.length - limit))
  have hlen : (history.drop (history.length - limit)).length ≤ limit := by
    rw [List.length_drop]
    omega
  refine ⟨hsuffix.trans (List.drop_suffix _ _), hsuffix.length_le.trans hlen, h, ?_⟩
  intro t ht htlen htfits
  refine (trimSlice_longest _).1 t ?_ htfits
  refine List.suffix_of_suffix_length_le ht (List.drop_suffix _ _) ?_
  have hle := ht.length_le
  rw [List.length_drop]
  omega

/-- **Nothing fits** exactly when the last record does not. -/
theorem trimmed_not_fits_iff {history : List JsValue} {limit : ℕ} (hlimit : 1 ≤ limit) :
    ¬ Fits (trimmed history limit) ↔ ∃ last, history.getLast? = some last ∧ ¬ Fits [last] := by
  have hsuffix : trimmed history limit <:+ history :=
    (trimSlice_suffix _).trans (List.drop_suffix _ _)
  constructor
  · intro h
    obtain ⟨last, hlast⟩ := List.length_eq_one_iff.1 ((trimSlice_longest _).2 h)
    rw [trimmed, hlast] at h
    rw [trimmed, hlast] at hsuffix
    obtain ⟨front, hfront⟩ := hsuffix
    exact ⟨last, by rw [← hfront, List.getLast?_concat], h⟩
  · rintro ⟨last, hlast, hnot⟩ hfits
    refine hnot (fits_of_suffix ?_ hfits)
    have hne : trimmed history limit ≠ [] := by
      refine trimSlice_ne_nil ?_
      have hpos : 0 < history.length := List.length_pos_of_mem (List.mem_of_getLast? hlast)
      refine List.ne_nil_of_length_pos ?_
      rw [List.length_drop]
      omega
    have hlast' : [last] <:+ history := by
      rw [← List.dropLast_append_getLast? last hlast]
      exact List.suffix_append _ _
    exact List.suffix_of_suffix_length_le hlast' hsuffix (List.length_pos_of_ne_nil hne)

/-! ## What is published -/

section
variable {config : NamestoneConfig} {address now : JsString} {options : JsValue}
  {history : List JsValue} {setName : SetName → Fetched} {n : JsNum}

theorem fullSlice_eq (hn : (options.get (js "maxEntries")).toNumber = some n) :
    fullSlice options history =
      if Fits (trimmed history (entryLimit n)) then .ok (trimmed history (entryLimit n))
      else .error (.error tooLarge) := by
  unfold fullSlice
  rw [hn]
  change (if Fits (trimSlice (sliceFrom history (maxEntries n).neg)) then _ else _) = _
  rw [sliceFrom_maxEntries]
  rfl

theorem sanitizeEnsLabel_isSome {v : JsValue} (h : v.toText.isSome = true) :
    ∃ label, sanitizeEnsLabel v = some label := by
  obtain ⟨t, ht⟩ := Option.isSome_iff_exists.1 h
  unfold sanitizeEnsLabel labelText
  by_cases htruthy : truthy v = true
  · rw [if_pos htruthy, ht]
    exact ⟨_, rfl⟩
  · rw [if_neg htruthy]
    exact ⟨_, rfl⟩

/-- A subdomain that converts to a text is sanitised. -/
theorem subdomain_label (h : (options.get (js "subdomain")).toText.isSome = true)
    (defaultSub : JsString) :
    ∃ subdomain label, subdomainOf options defaultSub = .ok subdomain ∧
      sanitizeEnsLabel subdomain = some label := by
  have hdefault := sanitizeEnsLabel_isSome (v := .str defaultSub) (by rw [JsValue.toText_str]; rfl)
  obtain ⟨label, hlabel⟩ := sanitizeEnsLabel_isSome h
  obtain ⟨dflt, hdflt⟩ := hdefault
  obtain ⟨text, htext⟩ := Option.isSome_iff_exists.1 h
  unfold subdomainOf
  split
  · exact ⟨_, dflt, rfl, hdflt⟩
  · exact ⟨_, dflt, rfl, hdflt⟩
  · rw [htext]
    by_cases hblank : trim text = []
    · exact ⟨.str defaultSub, dflt, by simp [orThrow, ok_map, hblank], hdflt⟩
    · exact ⟨options.get (js "subdomain"), label, by simp [orThrow, ok_map, hblank], hlabel⟩

theorem subdomainOf_none (h : (options.get (js "subdomain")).toText = none)
    (defaultSub : JsString) : subdomainOf options defaultSub = .error .engine := by
  unfold subdomainOf
  split
  · rename_i hget
    rw [hget] at h
    cases h
  · rename_i hget
    rw [hget] at h
    cases h
  · rw [h]
    rfl

/-- **What a request is made of**, where its slice fits. -/
theorem requestOf_cases {total : ℕ} {full : Bool} {slice : List JsValue} {description : JsString}
    (hfits : Fits slice) :
    (requestOf config address now options total full slice description = .error .engine ∧
        (options.get (js "subdomain")).toText = none) ∨
      ∃ subdomain label, sanitizeEnsLabel subdomain = some label ∧
        requestOf config address now options total full slice description = .ok
          ⟨total, slice, full,
            ⟨config.parentDomain, label, address,
              textRecords total full slice now description⟩⟩ := by
  unfold requestOf
  rw [if_neg (not_not.2 hfits)]
  cases htext : (options.get (js "subdomain")).toText with
  | none => exact Or.inl ⟨by rw [subdomainOf_none htext]; rfl, rfl⟩
  | some text =>
    obtain ⟨subdomain, label, hsubdomain, hlabel⟩ := subdomain_label (by rw [htext]; rfl)
      (if full then js "oracle-validation" else js "oracle-validation-last")
    refine Or.inr ⟨subdomain, label, hlabel, ?_⟩
    rw [hsubdomain]
    simp only [ok_bind, hlabel, orThrow]

/-- The records are prepared up to the slice. -/
theorem preparePublish_eq (hconfig : config.apiKey ≠ [] ∧ config.parentDomain ≠ [])
    (hfull : isFull options = true) :
    preparePublish config address now options (some history) =
      (fullSlice options history).bind fun slice =>
        requestOf config address now options history.length true slice
          (js "Trusted Edge Oracle validation history (" ++ printNat history.length ++
            js " events, last " ++ printNat slice.length ++ js " published)") := by
  unfold preparePublish
  rw [if_neg (not_or.2 hconfig), hfull]
  rfl

/-- **What is prepared**: the longest end of the history that fits, or nothing as it is too large. -/
theorem preparePublish_full (address now : JsString)
    (hconfig : config.apiKey ≠ [] ∧ config.parentDomain ≠ [])
    (hfull : isFull options = true)
    (hn : (options.get (js "maxEntries")).toNumber = some n) :
    (¬ Fits (trimmed history (entryLimit n)) ∧
        preparePublish config address now options (some history) = .error (.error tooLarge)) ∨
      (Fits (trimmed history (entryLimit n)) ∧
        ((preparePublish config address now options (some history) = .error .engine ∧
            (options.get (js "subdomain")).toText = none) ∨
          ∃ subdomain label description, sanitizeEnsLabel subdomain = some label ∧
            preparePublish config address now options (some history) = .ok
              ⟨history.length, trimmed history (entryLimit n), true,
                ⟨config.parentDomain, label, address,
                  textRecords history.length true (trimmed history (entryLimit n)) now
                    description⟩⟩)) := by
  rw [preparePublish_eq hconfig hfull, fullSlice_eq hn]
  by_cases hfits : Fits (trimmed history (entryLimit n))
  · rw [if_pos hfits]
    refine Or.inr ⟨hfits, ?_⟩
    exact (requestOf_cases hfits).imp id fun ⟨subdomain, label, hlabel, h⟩ =>
      ⟨subdomain, label, _, hlabel, h⟩
  · rw [if_neg hfits]
    exact Or.inl ⟨hfits, rfl⟩

theorem publish_of_error {e : Failure}
    (h : preparePublish config address now options (some history) = .error e) :
    publishValidationHistoryToEns config address now options (some history) setName = .error e := by
  unfold publishValidationHistoryToEns
  rw [h]
  rfl

theorem publish_of_ok {p : Prepared}
    (h : preparePublish config address now options (some history) = .ok p) :
    publishValidationHistoryToEns config address now options (some history) setName =
      replyOf config p (setName p.request) := by
  unfold publishValidationHistoryToEns
  rw [h]
  rfl

/-- A reply is taken, or refused with an error that is not about the size. -/
theorem replyOf_cases (p : Prepared) (reply : Fetched) :
    ((∃ status statusText text, reply = .response status statusText text ∧
        isOkStatus status = true) ∧
      replyOf config p reply = .ok
        ⟨p.request.name ++ 46 :: config.parentDomain, p.full,
          p.full && decide (p.slice.length < p.total), p.total, p.slice.length⟩) ∨
      (∀ status statusText text, reply = .response status statusText text →
        isOkStatus status = false) ∧
      ∃ e, replyOf config p reply = .error e ∧ e ≠ .error tooLarge := by
  cases reply with
  | failed => exact Or.inr ⟨by rintro _ _ _ ⟨⟩, .engine, rfl, by simp⟩
  | response status statusText text =>
    by_cases hok : isOkStatus status = true
    · exact Or.inl ⟨⟨status, statusText, text, rfl, hok⟩, if_pos hok⟩
    · refine Or.inr ⟨?_, _, if_neg hok, ?_⟩
      · rintro _ _ _ ⟨⟩
        exact eq_false_of_ne_true hok
      · intro h
        have hhead := congrArg List.head? (Failure.error.inj h)
        have hletters : some (78 : UInt16) = some 86 := hhead
        exact absurd hletters (by decide)

theorem one_le_entryLimit (n : JsNum) : 1 ≤ entryLimit n := by
  have hfloor : 1 ≤ ⌊clampedEntries n⌋ := Int.le_floor.2 (by exact_mod_cast clampedEntries_ge n)
  unfold entryLimit
  omega

theorem publish_tooLarge_iff (hconfig : config.apiKey ≠ [] ∧ config.parentDomain ≠ [])
    (hfull : isFull options = true)
    (hn : (options.get (js "maxEntries")).toNumber = some n) :
    publishValidationHistoryToEns config address now options (some history) setName =
        .error (.error tooLarge) ↔
      ∃ last, history.getLast? = some last ∧ ¬ Fits [last] := by
  rw [← trimmed_not_fits_iff (one_le_entryLimit n)]
  obtain ⟨hnot, h⟩ | ⟨hfits, ⟨h, -⟩ | ⟨subdomain, label, description, -, h⟩⟩ :=
    preparePublish_full address now hconfig hfull hn
  · exact iff_of_true (publish_of_error h) hnot
  · rw [publish_of_error h]
    exact iff_of_false (by simp) (not_not.2 hfits)
  · rw [publish_of_ok h]
    refine iff_of_false ?_ (not_not.2 hfits)
    rcases replyOf_cases _ _ with ⟨-, hreply⟩ | ⟨-, e, hreply, hne⟩
    · rw [hreply]
      simp
    · rw [hreply]
      exact fun heq => hne (Except.error.inj heq)

/-- **What publishing the full history comes to**: its longest end that fits is published, unless the
last record alone does not fit. -/
theorem publish_full (hconfig : config.apiKey ≠ [] ∧ config.parentDomain ≠ [])
    (hfull : isFull options = true) :
    ((options.get (js "maxEntries")).toNumber = none →
      publishValidationHistoryToEns config address now options (some history) setName =
        .error .engine) ∧
    ∀ n, (options.get (js "maxEntries")).toNumber = some n →
      (publishValidationHistoryToEns config address now options (some history) setName =
          .error (.error tooLarge) ↔
        ∃ last, history.getLast? = some last ∧ ¬ Fits [last]) ∧
      (∀ r, publishValidationHistoryToEns config address now options (some history) setName =
          .ok r →
        ∃ p, preparePublish config address now options (some history) = .ok p ∧
          (∃ status statusText text, setName p.request = .response status statusText text ∧
            isOkStatus status = true) ∧
          LongestSuffix history (entryLimit n) p.slice ∧
          (js "com.sealedsky.validation_history", jsonText (.arr p.slice)) ∈
            p.request.textRecords ∧
          r.published = p.slice.length ∧
          (r.truncated = true ↔ p.slice.length < history.length)) ∧
      ((∀ last, history.getLast? = some last → Fits [last]) →
        (options.get (js "subdomain")).toText.isSome = true →
        (∀ request, ∃ status statusText text,
          setName request = .response status statusText text ∧ isOkStatus status = true) →
        ∃ r, publishValidationHistoryToEns config address now options (some history) setName =
          .ok r) := by
  refine ⟨fun hnone => ?_, fun n hn => ⟨publish_tooLarge_iff hconfig hfull hn, ?_, ?_⟩⟩
  · refine publish_of_error ?_
    rw [preparePublish_eq hconfig hfull, fullSlice, hnone]
    rfl
  · intro r hr
    obtain ⟨-, h⟩ | ⟨hfits, ⟨h, -⟩ | ⟨subdomain, label, description, -, h⟩⟩ :=
      preparePublish_full address now hconfig hfull hn
    · rw [publish_of_error h] at hr
      cases hr
    · rw [publish_of_error h] at hr
      cases hr
    · rw [publish_of_ok h] at hr
      obtain ⟨hok, hreply⟩ | ⟨-, e, hreply, -⟩ := replyOf_cases _ _
      · rw [hreply] at hr
        cases hr
        refine ⟨_, h, hok, trimmed_longest hfits, List.mem_cons_self, rfl, ?_⟩
        simp
      · rw [hreply] at hr
        cases hr
  · intro hlast hsubdomain hok
    obtain ⟨hnot, -⟩ | ⟨hfits, ⟨-, hnone⟩ | ⟨subdomain, label, description, -, h⟩⟩ :=
      preparePublish_full address now hconfig hfull hn
    · obtain ⟨last, hget, hbig⟩ := (trimmed_not_fits_iff (one_le_entryLimit n)).1 hnot
      exact absurd (hlast last hget) hbig
    · rw [hnone] at hsubdomain
      cases hsubdomain
    · rw [publish_of_ok h]
      obtain ⟨-, hreply⟩ | ⟨hbad, -⟩ := replyOf_cases _ _
      · exact ⟨_, hreply⟩
      · obtain ⟨status, statusText, text, hresponse, hstatus⟩ := hok _
        rw [hbad status statusText text hresponse] at hstatus
        cases hstatus

end

/-- Three records, of which only the last has to fit. -/
def threeRecords : List JsValue :=
  [.obj [(js "status", .str (js "accepted"))], .obj [(js "status", .str (js "rejected"))],
    .obj [(js "status", .str (js "device_signed"))]]

theorem publish_three : ∃ r p,
    publishValidationHistoryToEns ⟨js "key", js "id144.eth"⟩ (js "0x01")
        (js "2026-05-09T12:00:00.000Z") (.obj []) (some threeRecords)
        (fun _ => .response 200 (js "OK") none) = .ok r ∧
      preparePublish ⟨js "key", js "id144.eth"⟩ (js "0x01") (js "2026-05-09T12:00:00.000Z")
        (.obj []) (some threeRecords) = .ok p ∧
      LongestSuffix threeRecords (entryLimit .nan) p.slice ∧ r.published = p.slice.length := by
  have hfull : isFull (.obj []) = true := rfl
  obtain ⟨-, hpublished, hok⟩ := (@publish_full ⟨js "key", js "id144.eth"⟩ (js "0x01")
    (js "2026-05-09T12:00:00.000Z") (.obj []) threeRecords
    (fun _ => .response 200 (js "OK") none) ⟨by decide, by decide⟩ hfull).2 .nan rfl
  obtain ⟨r, hr⟩ := hok (by rintro last ⟨⟩; decide) rfl fun _ => ⟨200, js "OK", none, rfl, rfl⟩
  obtain ⟨p, hp, -, hlongest, -, hcount, -⟩ := hpublished r hr
  exact ⟨r, p, hr, hp, hlongest, hcount⟩

end SealedSky.Backend
