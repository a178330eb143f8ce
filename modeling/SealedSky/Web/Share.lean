import SealedSky.Js.Arith
import SealedSky.Js.Codec
import SealedSky.Web.Envelope

/-!
# Reopen links (`sealed-sky-web/src/lib/share.ts`)

A link carries a capsule in its fragment, or the ENS name that it is published under. The key of a
cTRNG capsule is in the fragment both ways.

* `b64UrlDecode_encode` — a base64 text is read back from its URL form.
* `parseFragment_buildShareUrl` — the link of an item that is not published carries its envelope, its
  key and its time.
-/
namespace SealedSky.Web

open Js Fallible

/-- A string that is there and not empty. -/
def nonEmpty (o : Option JsString) : Option JsString := o.filter fun s => !s.isEmpty

/-- `s.replace(/a/g, "b")`. -/
def replaceUnit (a b : UInt16) (s : JsString) : JsString := s.map fun u => if u = a then b else u

/-- share.ts:7. -/
def b64UrlEncode (b64 : JsString) : JsString :=
  (replaceUnit 47 95 (replaceUnit 43 45 b64)).rdropWhile fun u => u == 61

/-- share.ts:11. The loop appends `=` up to a multiple of four. -/
def b64UrlDecode (b64url : JsString) : JsString :=
  let s := replaceUnit 95 47 (replaceUnit 45 43 b64url)
  s ++ padding s.length

/-! ## Links -/

/-- `window.location`, as far as a link is built from it: its origin and path. -/
structure Location where
  base : JsString
  no_hash : 35 ∉ base

/-- The key that goes into a link. -/
def shareKey (item : QueueItem) : Option JsString :=
  if item.backend = .ctrng then nonEmpty item.ctrngKeyB64 else none

/-- The parameter `k`, where there is a key. -/
def keyParam : Option JsString → List (JsString × JsString)
  | some k => [(js "k", b64UrlEncode k)]
  | none => []

/-- The `params` of share.ts:48. -/
def linkParams (envelope t : JsString) (key : Option JsString) : List (JsString × JsString) :=
  [(js "env", b64UrlEncode envelope), (js "t", t)] ++ keyParam key

/-- share.ts:33. -/
def buildShareUrl (location : Location) (item : QueueItem) : Result JsString := do
  match nonEmpty item.capsuleEns with
  | some ens =>
    let name ← ofEngine (encodeURIComponent ens)
    let url := location.base ++ js "?ens=" ++ name
    match shareKey item with
    | some k => .ok (url ++ js "#k=" ++ b64UrlEncode k)
    | none => .ok url
  | none =>
    let t ← ofEngine item.createdAt.toText
    .ok (location.base ++ 35 :: serializeParams (linkParams item.envelope t (shareKey item)))

/-- `location.hash` of a page with this URL. What `URLSearchParams` prints stands in it as it is. -/
def hashOf (url : JsString) : JsString :=
  match url.dropWhile (fun u => u != 35) with
  | [_] => []
  | hash => hash

/-- share.ts:27. -/
structure ImportedItem where
  envelope : JsString
  createdAt : JsNum
  ctrngKeyB64 : Option JsString

/-- The parameters of a fragment, if it is not empty. -/
def fragmentParams (hash : JsString) : Option (List (JsString × JsString)) :=
  let raw := if hash.head? = some 35 then hash.tail else hash
  if raw = [] then none else some (searchParams raw)

/-- The key among the parameters of a fragment. -/
def keyOf (params : List (JsString × JsString)) : Option JsString :=
  (nonEmpty (getParam params (js "k"))).map b64UrlDecode

/-- share.ts:57. -/
def parseFragment (hash : JsString) (now : TimeValue) : Option ImportedItem := do
  let params ← fragmentParams hash
  let envUrl ← nonEmpty (getParam params (js "env"))
  let createdAt :=
    match getParam params (js "t") with
    | some t => if isDigits t then parseInt t else secondsOf now
    | none => secondsOf now
  some { envelope := b64UrlDecode envUrl, createdAt, ctrngKeyB64 := keyOf params }

/-- share.ts:72. -/
def readKeyFragment (hash : JsString) : Option JsString := (fragmentParams hash).bind keyOf

/-- share.ts:90. -/
def buildItemFromImport (imp : ImportedItem) (newId : JsString) : Result QueueItem := do
  match ← peekBackend imp.envelope with
  | .drand =>
    let parsed ← unpack imp.envelope
    -- the app replaces the unlock time, which the envelope does not have
    .ok
      { id := newId, backend := .drand, envelope := imp.envelope, round := parsed.round
        unlockUnix := .num (ofRat 0), createdAt := .num imp.createdAt, status := .sealed }
  | .ctrng =>
    let parsed ← unpackCtrng imp.envelope
    .ok
      { id := newId, backend := .ctrng, envelope := imp.envelope
        unlockUnix := parsed.unlockUnix, ctrngTargetSequence := parsed.targetSequence
        ctrngKeyB64 := imp.ctrngKeyB64, createdAt := .num imp.createdAt, status := .sealed }

/-! ## Base64 in a link -/

/-- The letters of base64 in their URL form and back. -/
theorem b64Unit_swap : ∀ n < 64, ∀ u, u = b64Unit n →
    replaceUnit 95 47 (replaceUnit 45 43 (replaceUnit 47 95 (replaceUnit 43 45 [u]))) = [u] ∧
      ∀ v ∈ replaceUnit 47 95 (replaceUnit 43 45 [u]),
        v ≠ 61 ∧ v.toNat < 0x80 := by
  rintro n hn _ rfl
  revert n
  decide

theorem replaceUnit_append (a b : UInt16) (s t : JsString) :
    replaceUnit a b (s ++ t) = replaceUnit a b s ++ replaceUnit a b t := List.map_append

theorem b64Units_swap (bs : List UInt8) :
    replaceUnit 95 47 (replaceUnit 45 43 (replaceUnit 47 95 (replaceUnit 43 45 (b64Units bs)))) =
        b64Units bs ∧
      ∀ v ∈ replaceUnit 47 95 (replaceUnit 43 45 (b64Units bs)), v ≠ 61 ∧ v.toNat < 0x80 := by
  have hletters : ∀ u ∈ b64Units bs, ∃ n < 64, u = b64Unit n := fun u hu => mem_b64Units hu
  generalize b64Units bs = s at hletters ⊢
  induction s with
  | nil =>
    refine ⟨rfl, ?_⟩
    rintro v ⟨⟩
  | cons u s ih =>
    obtain ⟨n, hn, hu⟩ := hletters u List.mem_cons_self
    obtain ⟨hswap, hplain⟩ := b64Unit_swap n hn u hu
    obtain ⟨hrest, hplainRest⟩ := ih fun v hv => hletters v (List.mem_cons_of_mem u hv)
    rw [← List.singleton_append]
    simp only [replaceUnit_append]
    refine ⟨by rw [hswap, hrest], fun v hv => ?_⟩
    rcases List.mem_append.1 hv with hv | hv
    · exact hplain v hv
    · exact hplainRest v hv

theorem rdropWhile_append_padding {s : JsString} (h : ∀ u ∈ s, u ≠ 61) (n : ℕ) :
    (s ++ padding n).rdropWhile (fun u => u == 61) = s := by
  have hpad : ∀ u ∈ (padding n).reverse, (u == 61) = true := by
    intro u hu
    rw [List.eq_of_mem_replicate (List.mem_reverse.1 hu)]
    rfl
  have hself : s.rdropWhile (fun u => u == 61) = s :=
    List.rdropWhile_eq_self_iff.2 fun hl => by
      have hlast := h _ (List.getLast_mem hl)
      simpa using hlast
  rw [List.rdropWhile, List.reverse_append, List.dropWhile_append_of_pos hpad, ← List.rdropWhile,
    hself]

/-- The URL form is the letters without the padding. -/
theorem b64UrlEncode_btoa (bs : List UInt8) :
    b64UrlEncode (btoa bs) = replaceUnit 47 95 (replaceUnit 43 45 (b64Units bs)) := by
  have hpad : ∀ n, replaceUnit 47 95 (replaceUnit 43 45 (padding n)) = padding n := by
    intro n
    simp only [padding, replaceUnit, List.map_replicate]
    rfl
  rw [b64UrlEncode, btoa, replaceUnit_append, replaceUnit_append, hpad,
    rdropWhile_append_padding fun u hu => ((b64Units_swap bs).2 u hu).1]

/-- **A base64 text is read back from its URL form.** -/
theorem b64UrlDecode_encode (bs : List UInt8) : b64UrlDecode (b64UrlEncode (btoa bs)) = btoa bs := by
  rw [b64UrlEncode_btoa, b64UrlDecode]
  simp only [(b64Units_swap bs).1]
  rfl

theorem ascii_b64UrlEncode (bs : List UInt8) : ∀ u ∈ b64UrlEncode (btoa bs), u.toNat < 0x80 := by
  rw [b64UrlEncode_btoa]
  exact fun u hu => ((b64Units_swap bs).2 u hu).2

theorem nonEmpty_some {s : JsString} (h : s ≠ []) : nonEmpty (some s) = some s := by
  obtain ⟨u, s, rfl⟩ := List.exists_cons_of_ne_nil h
  rfl

theorem btoa_ne_nil {bs : List UInt8} (h : bs ≠ []) : btoa bs ≠ [] := by
  intro hnil
  have hread := atob_btoa bs
  rw [hnil] at hread
  exact h (Option.some.inj hread).symm

theorem b64UrlEncode_ne_nil {bs : List UInt8} (h : bs ≠ []) : b64UrlEncode (btoa bs) ≠ [] := by
  intro hnil
  have hread := b64UrlDecode_encode bs
  rw [hnil] at hread
  exact btoa_ne_nil h hread.symm

/-! ## What a link carries -/

theorem hashOf_fragment (location : Location) {s : JsString} (h : s ≠ []) :
    hashOf (location.base ++ 35 :: s) = 35 :: s := by
  have hbase : ∀ u ∈ location.base, (u != 35) = true := by
    intro u hu
    rw [bne_iff_ne]
    exact fun heq => location.no_hash (heq ▸ hu)
  have hdrop : (location.base ++ 35 :: s).dropWhile (fun u => u != 35) = 35 :: s := by
    rw [List.dropWhile_append_of_pos hbase]
    rfl
  unfold hashOf
  rw [hdrop]
  obtain ⟨u, s, rfl⟩ := List.exists_cons_of_ne_nil h
  rfl

/-- A fragment of parameters is parsed to these parameters. -/
theorem fragmentParams_serialize {ps : List (JsString × JsString)} (hne : serializeParams ps ≠ [])
    (h : ∀ p ∈ ps, WellFormed p.1 ∧ WellFormed p.2) :
    fragmentParams (35 :: serializeParams ps) = some ps := by
  unfold fragmentParams
  simp only [List.head?_cons, if_true, List.tail_cons, if_neg hne, searchParams_serialize h]

theorem serializeParams_ne_nil {p : JsString × JsString} {ps : List (JsString × JsString)}
    (h : ∀ q ∈ p :: ps, WellFormed q.1 ∧ WellFormed q.2) : serializeParams (p :: ps) ≠ [] := by
  intro hnil
  have hread := searchParams_serialize h
  rw [hnil] at hread
  cases hread

/-- What the parameters of a link are parsed to. -/
theorem parseFragment_linkParams {bs : List UInt8} {t : JsString} (key : Option (List UInt8))
    (hbs : bs ≠ []) (ht : WellFormed t) (hkey : key ≠ some []) (now : TimeValue) :
    serializeParams (linkParams (btoa bs) t (key.map btoa)) ≠ [] ∧
      parseFragment (35 :: serializeParams (linkParams (btoa bs) t (key.map btoa))) now = some
        { envelope := btoa bs, ctrngKeyB64 := key.map btoa
          createdAt := if isDigits t then parseInt t else secondsOf now } := by
  have hascii : ∀ p ∈ linkParams (btoa bs) t (key.map btoa), WellFormed p.1 ∧ WellFormed p.2 := by
    have hname : WellFormed (js "env") ∧ WellFormed (js "t") ∧ WellFormed (js "k") :=
      ⟨wellFormed_ascii (by decide), wellFormed_ascii (by decide), wellFormed_ascii (by decide)⟩
    intro p hp
    rcases List.mem_append.1 hp with hp | hp
    · simp only [List.mem_cons, List.not_mem_nil, or_false] at hp
      rcases hp with rfl | rfl
      · exact ⟨hname.1, wellFormed_ascii (ascii_b64UrlEncode bs)⟩
      · exact ⟨hname.2.1, ht⟩
    · cases key with
      | none => cases hp
      | some kb =>
        rw [List.mem_singleton.1 hp]
        exact ⟨hname.2.2, wellFormed_ascii (ascii_b64UrlEncode kb)⟩
  have hne : serializeParams (linkParams (btoa bs) t (key.map btoa)) ≠ [] :=
    serializeParams_ne_nil hascii
  have henv : nonEmpty (getParam (linkParams (btoa bs) t (key.map btoa)) (js "env")) =
      some (b64UrlEncode (btoa bs)) := nonEmpty_some (b64UrlEncode_ne_nil hbs)
  have htime : getParam (linkParams (btoa bs) t (key.map btoa)) (js "t") = some t := rfl
  have hk : keyOf (linkParams (btoa bs) t (key.map btoa)) = key.map btoa := by
    cases key with
    | none => rfl
    | some kb =>
      have hkb : kb ≠ [] := fun h => hkey (congrArg some h)
      have hget : getParam (linkParams (btoa bs) t (some (btoa kb))) (js "k") =
        some (b64UrlEncode (btoa kb)) := rfl
      rw [Option.map_some, keyOf, hget, nonEmpty_some (b64UrlEncode_ne_nil hkb), Option.map_some,
        b64UrlDecode_encode]
  refine ⟨hne, ?_⟩
  unfold parseFragment
  simp only [fragmentParams_serialize hne hascii, Option.bind_eq_bind, Option.bind_some, henv,
    htime, hk, b64UrlDecode_encode]

/-- **The link of an item that is not published carries its envelope and its key**, and its time if
that prints as digits. -/
theorem parseFragment_buildShareUrl (location : Location) (now : TimeValue) {item : QueueItem}
    {bs : List UInt8} {key : Option (List UInt8)} {x : Binary64.Double}
    (hens : nonEmpty item.capsuleEns = none) (henvelope : item.envelope = btoa bs) (hbs : bs ≠ [])
    (hshare : shareKey item = key.map btoa) (hkey : key ≠ some [])
    (hcreated : item.createdAt = .num (.fin x)) :
    ∃ url, buildShareUrl location item = .ok url ∧
      parseFragment (hashOf url) now = some
        { envelope := item.envelope, ctrngKeyB64 := key.map btoa
          createdAt := if isDigits (Js.toString (.fin x)) then parseInt (Js.toString (.fin x))
            else secondsOf now } := by
  obtain ⟨hne, hparse⟩ := parseFragment_linkParams key hbs (wellFormed_toString x) hkey now
  refine ⟨location.base ++ 35 :: serializeParams
    (linkParams (btoa bs) (Js.toString (.fin x)) (key.map btoa)), ?_, ?_⟩
  · unfold buildShareUrl
    simp only [hens, hcreated, JsValue.toText_num, hshare, henvelope]
    rfl
  · rw [hashOf_fragment location hne, hparse, henvelope]

/-- The key of a cTRNG item goes into its link. -/
theorem shareKey_ctrng {item : QueueItem} {kb : List UInt8} (hbackend : item.backend = .ctrng)
    (hkey : item.ctrngKeyB64 = some (btoa kb)) (hkb : kb ≠ []) :
    shareKey item = (some kb).map btoa := by
  rw [shareKey, if_pos hbackend, hkey, nonEmpty_some (btoa_ne_nil hkb), Option.map_some]

/-- **A cTRNG capsule is built again from its envelope.** -/
theorem buildItemFromImport_ctrng {imp : ImportedItem} (id : JsString)
    {parsed : ParsedCtrngEnvelope} (hbackend : peekBackend imp.envelope = .ok .ctrng)
    (hparsed : unpackCtrng imp.envelope = .ok parsed) :
    buildItemFromImport imp id = .ok
      { id, backend := .ctrng, envelope := imp.envelope, unlockUnix := parsed.unlockUnix
        ctrngTargetSequence := parsed.targetSequence, ctrngKeyB64 := imp.ctrngKeyB64
        createdAt := .num imp.createdAt, status := .sealed } := by
  unfold buildItemFromImport
  rw [hbackend]
  simp only [ok_bind, hparsed]

/-- So is a drand capsule, without its unlock time. -/
theorem buildItemFromImport_drand {imp : ImportedItem} (id : JsString) {parsed : ParsedEnvelope}
    (hbackend : peekBackend imp.envelope = .ok .drand) (hparsed : unpack imp.envelope = .ok parsed) :
    buildItemFromImport imp id = .ok
      { id, backend := .drand, envelope := imp.envelope, round := parsed.round
        unlockUnix := .num (ofRat 0), createdAt := .num imp.createdAt, status := .sealed } := by
  unfold buildItemFromImport
  rw [hbackend]
  simp only [ok_bind, hparsed]

end SealedSky.Web
