import SealedSky.Js.Value
import SealedSky.Lib.Lts

/-!
# The connected wallet and its identity (`lib/wallet.ts`, `components/WalletConnect.tsx`)

`useWallet` holds the account that the provider reports, and the effect of `WalletConnect` looks up its
ENS name and reports both to the app, which seals with them. Every promise that is still open, every
event of the provider and the effect after a render are actions of their own, so a run is any
interleaving of them. `window.ethereum` is there from the start or not at all.

* `step_cases` — what a step does to the identity.
* `run_attributed_iff` — in which runs the identity is always that of the account, at any moment and once
  the effect of each render has run.
-/
namespace SealedSky.Web.Wallet

open Js

/-- `/^0x[0-9a-fA-F]+$/`. -/
def isHex : JsString → Bool
  | 48 :: 120 :: r => !r.isEmpty && r.all fun u => (radixDigit 16 u).isSome
  | _ => false

/-- wallet.ts:3. -/
structure Hex where
  text : JsString
  hex : isHex text = true
  deriving DecidableEq

def asHex : JsValue → Option Hex
  | .str s => if h : isHex s = true then some ⟨s, h⟩ else none
  | _ => none

/-- wallet.ts:46. -/
def asChainId : JsValue → Option JsNum
  | .str s => if isHex s then (radixInteger 16 (s.drop 2)).map fun n => ofRat n else none
  | .num x => some x
  | _ => none

/-- `Array.isArray(accs) && accs[0] ? asHex(accs[0]) : null`. A falsy account is no text in hexadecimal
digits either. -/
def firstAccount : JsValue → Option Hex
  | .arr (v :: _) => asHex v
  | _ => none

/-- `addr.toLowerCase()`. -/
def Hex.key (addr : Hex) : JsString :=
  addr.text.map fun u => if 65 ≤ u.toNat ∧ u.toNat ≤ 70 then u + 32 else u

/-- wallet.ts:17. -/
structure WalletState where
  address : Option Hex
  chainId : Option JsNum
  connecting : Bool
  error : Option JsString
  installed : Bool

/-- The request to the provider that a promise waits for: for the accounts, and then for the chain. -/
inductive Request where
  | accounts
  | chainId (accs : JsValue)

inductive Stage where
  | asking
  | answered (name : Option JsString)
  deriving DecidableEq

/-- A `lookupEnsName` whose `then` has not run. -/
structure Lookup where
  address : Hex
  cancelled : Bool
  stage : Stage
  deriving DecidableEq

/-- What the app knows of the sender (App.tsx:50). -/
structure Identity where
  address : Option Hex
  ens : Option JsString
  deriving DecidableEq

/-- The hook, the component and the app. `shown` is the account of the last render whose effect has run.
`resolved` and `dropped` are no part of the code: all that lookups have found, under the address in lower
case, and whether the wallet was disconnected with no `connect` since. -/
structure State where
  wallet : WalletState
  shown : Option Hex
  ens : Option JsString
  resolving : Bool
  identity : Identity
  preferred : Bool
  silent : Option Request
  connects : List Request
  lookups : List Lookup
  reverseCache : List (JsString × Option JsString)
  resolved : List (JsString × Option JsString)
  dropped : Bool

inductive Action where
  | connect
  | connectReply (i : ℕ) (reply : Except JsString JsValue)
  | silentReply (reply : Except JsString JsValue)
  | accountsChanged (accs : JsValue)
  | chainChanged (chain : JsValue)
  | disconnect
  | effect
  | answer (i : ℕ) (reply : Except JsString (Option JsString))
  | deliver (i : ℕ)

namespace State

def init (installed preferred : Bool) : State where
  wallet := ⟨none, none, false, none, installed⟩
  shown := none
  ens := none
  resolving := false
  identity := ⟨none, none⟩
  preferred := preferred
  silent := if installed && preferred then some .accounts else none
  connects := []
  lookups := []
  reverseCache := []
  resolved := []
  dropped := false

variable (installed : Bool) (s : State)

/-- wallet.ts:108, up to its first `await`. -/
def connect : State :=
  if installed then
    { s with
      wallet := { s.wallet with connecting := true, error := none }
      connects := s.connects ++ [.accounts]
      dropped := false }
  else
    { s with
      wallet := { s.wallet with
        error := some (js "No injected wallet detected. Install MetaMask, Rabby, or similar.") }
      dropped := false }

def connectReply (i : ℕ) (reply : Except JsString JsValue) : Option State :=
  s.connects[i]?.map fun request =>
    match reply with
    | .error msg => { s with
        wallet := { s.wallet with connecting := false, error := some msg }
        connects := s.connects.eraseIdx i }
    | .ok v =>
      match request with
      | .accounts => { s with connects := s.connects.set i (.chainId v) }
      | .chainId accs => { s with
          wallet := ⟨firstAccount accs, asChainId v, false, none, true⟩
          preferred := (firstAccount accs).isSome
          connects := s.connects.eraseIdx i }

/-- wallet.ts:69. -/
def silentReply (reply : Except JsString JsValue) : Option State :=
  s.silent.map fun request =>
    match reply with
    | .error _ => { s with silent := none }
    | .ok v =>
      match request with
      | .accounts => { s with silent := some (.chainId v) }
      | .chainId accs => { s with
          wallet := { s.wallet with address := firstAccount accs, chainId := asChainId v }
          silent := none }

/-- wallet.ts:94. -/
def onAccounts (accs : JsValue) : State :=
  { s with
    wallet := { s.wallet with address := firstAccount accs }
    preferred := s.preferred && (firstAccount accs).isSome }

def onChain (chain : JsValue) : State :=
  { s with wallet := { s.wallet with chainId := asChainId chain } }

/-- wallet.ts:138. -/
def disconnect : State :=
  { s with
    wallet := ⟨none, none, false, none, installed⟩
    preferred := false
    dropped := true }

/-- `lookupEnsName` up to its first `await`: a name in the cache is there at once. -/
def lookupEnsName (addr : Hex) : Stage :=
  match s.reverseCache.find? fun e => e.1 == addr.key with
  | some e => .answered e.2
  | none => .asking

def cancelAll (lookups : List Lookup) : List Lookup :=
  lookups.map fun l => { l with cancelled := true }

/-- The effect of WalletConnect.tsx:14 after a render with another account, the clean-up of the last one
included. -/
def effect : Option State :=
  if s.wallet.address = s.shown then none
  else
    match s.wallet.address with
    | none => some { s with
        shown := none
        ens := none
        identity := ⟨none, none⟩
        lookups := cancelAll s.lookups }
    | some addr => some { s with
        shown := some addr
        resolving := true
        lookups := cancelAll s.lookups ++ [⟨addr, false, s.lookupEnsName addr⟩] }

/-- `getEnsName` has an answer, or has thrown (ens.ts:20). -/
def answer (i : ℕ) (reply : Except JsString (Option JsString)) : Option State :=
  match s.lookups[i]? with
  | some ⟨addr, cancelled, .asking⟩ =>
    let name := match reply with
      | .ok name => name
      | .error _ => none
    some { s with
      lookups := s.lookups.set i ⟨addr, cancelled, .answered name⟩
      reverseCache := (addr.key, name) :: s.reverseCache
      resolved := s.resolved ++ [(addr.key, name)] }
  | _ => none

/-- The `then` and the `finally` of the effect. -/
def deliver (i : ℕ) : Option State :=
  match s.lookups[i]? with
  | some ⟨addr, cancelled, .answered name⟩ =>
    if cancelled then some { s with lookups := s.lookups.eraseIdx i }
    else some { s with
      ens := name
      resolving := false
      identity := ⟨some addr, name⟩
      lookups := s.lookups.eraseIdx i }
  | _ => none

def step : Action → Option State
  | .connect => some (s.connect installed)
  | .connectReply i reply => s.connectReply i reply
  | .silentReply reply => s.silentReply reply
  | .accountsChanged accs => if installed then some (s.onAccounts accs) else none
  | .chainChanged chain => if installed then some (s.onChain chain) else none
  | .disconnect => some (s.disconnect installed)
  | .effect => s.effect
  | .answer i reply => s.answer i reply
  | .deliver i => s.deliver i

end State

/-- The page, from the first render. -/
def page (installed preferred : Bool) : Lts State Action :=
  ⟨State.init installed preferred, fun s a => s.step installed a⟩

/-! ## What a step does -/

/-- What the lookups and the identity are about. -/
def State.report (s : State) :
    Option Hex × Identity × List Lookup × List (JsString × Option JsString) ×
      List (JsString × Option JsString) :=
  (s.shown, s.identity, s.lookups, s.reverseCache, s.resolved)

/-- The account that a step of the provider brings. -/
def State.brings (s : State) : Action → Option Hex
  | .connectReply i (.ok _) =>
    match s.connects[i]? with
    | some (.chainId accs) => firstAccount accs
    | _ => none
  | .silentReply (.ok _) =>
    match s.silent with
    | some (.chainId accs) => firstAccount accs
    | _ => none
  | .accountsChanged accs => firstAccount accs
  | _ => none

/-- What a lookup makes of the reply. -/
def found : Except JsString (Option JsString) → Option JsString
  | .ok name => name
  | .error _ => none

open State in
/-- The kinds of step. -/
inductive Stepped (s : State) : Action → State → Prop where
  | connected {t} (hreport : t.report = s.report) (haddr : t.wallet.address = s.wallet.address)
      (hdropped : t.dropped = false) : Stepped s .connect t
  | disconnected {t} (hreport : t.report = s.report) (haddr : t.wallet.address = none) :
      Stepped s .disconnect t
  | provider {a t} (ha : a ≠ .effect) (hdeliver : ∀ i, a ≠ .deliver i) (hreport : t.report = s.report)
      (hdropped : t.dropped = s.dropped)
      (haddr : t.wallet.address = s.brings a ∨
        t.wallet.address = s.wallet.address ∧ s.brings a = none) : Stepped s a t
  | cleared (haddr : s.wallet.address = none) : Stepped s .effect { s with
      shown := none, ens := none, identity := ⟨none, none⟩, lookups := cancelAll s.lookups }
  | asked {addr} (haddr : s.wallet.address = some addr) (hshown : s.shown ≠ some addr) :
      Stepped s .effect { s with
        shown := some addr, resolving := true
        lookups := cancelAll s.lookups ++ [⟨addr, false, s.lookupEnsName addr⟩] }
  | answered {i addr cancelled reply} (hl : s.lookups[i]? = some ⟨addr, cancelled, .asking⟩) :
      Stepped s (.answer i reply) { s with
        lookups := s.lookups.set i ⟨addr, cancelled, .answered (found reply)⟩
        reverseCache := (addr.key, found reply) :: s.reverseCache
        resolved := s.resolved ++ [(addr.key, found reply)] }
  | ignored {i addr name} (hl : s.lookups[i]? = some ⟨addr, true, .answered name⟩) :
      Stepped s (.deliver i) { s with lookups := s.lookups.eraseIdx i }
  | delivered {i addr name} (hl : s.lookups[i]? = some ⟨addr, false, .answered name⟩) :
      Stepped s (.deliver i) { s with
        ens := name, resolving := false, identity := ⟨some addr, name⟩
        lookups := s.lookups.eraseIdx i }

section
variable {installed preferred : Bool} {s t : State} {a : Action}

theorem connectReply_cases {i : ℕ} {reply : Except JsString JsValue}
    (h : s.connectReply i reply = some t) : Stepped s (.connectReply i reply) t := by
  obtain ⟨request, hrequest, rfl⟩ := Option.map_eq_some_iff.1 h
  cases reply with
  | error msg => exact Stepped.provider (by simp) (by simp) rfl rfl (Or.inr ⟨rfl, rfl⟩)
  | ok v =>
    cases request with
    | accounts =>
      exact Stepped.provider (by simp) (by simp) rfl rfl (Or.inr ⟨rfl, by simp [State.brings, hrequest]⟩)
    | chainId accs =>
      exact Stepped.provider (by simp) (by simp) rfl rfl (Or.inl (by simp [State.brings, hrequest]))

theorem silentReply_cases {reply : Except JsString JsValue} (h : s.silentReply reply = some t) :
    Stepped s (.silentReply reply) t := by
  obtain ⟨request, hrequest, rfl⟩ := Option.map_eq_some_iff.1 h
  cases reply with
  | error msg => exact Stepped.provider (by simp) (by simp) rfl rfl (Or.inr ⟨rfl, rfl⟩)
  | ok v =>
    cases request with
    | accounts =>
      exact Stepped.provider (by simp) (by simp) rfl rfl (Or.inr ⟨rfl, by simp [State.brings, hrequest]⟩)
    | chainId accs =>
      exact Stepped.provider (by simp) (by simp) rfl rfl (Or.inl (by simp [State.brings, hrequest]))

theorem answer_cases {i : ℕ} {reply : Except JsString (Option JsString)}
    (h : s.answer i reply = some t) : Stepped s (.answer i reply) t := by
  unfold State.answer at h
  split at h
  · rename_i addr cancelled hl
    cases h
    exact Stepped.answered hl
  · cases h

theorem deliver_cases {i : ℕ} (h : s.deliver i = some t) : Stepped s (.deliver i) t := by
  unfold State.deliver at h
  split at h
  · rename_i addr cancelled name hl
    cases cancelled with
    | true =>
      cases h
      exact Stepped.ignored hl
    | false =>
      cases h
      exact Stepped.delivered hl
  · cases h

/-- **Every step is of one of these kinds.** -/
theorem step_cases (h : s.step installed a = some t) : Stepped s a t := by
  cases a with
  | connect =>
    cases h
    unfold State.connect
    split
    · exact Stepped.connected rfl rfl rfl
    · exact Stepped.connected rfl rfl rfl
  | connectReply i reply => exact connectReply_cases h
  | silentReply reply => exact silentReply_cases h
  | accountsChanged accs =>
    obtain ⟨-, h⟩ := Option.ite_none_right_eq_some.1 h
    cases h
    exact Stepped.provider (by simp) (by simp) rfl rfl (Or.inl rfl)
  | chainChanged chain =>
    obtain ⟨-, h⟩ := Option.ite_none_right_eq_some.1 h
    cases h
    exact Stepped.provider (by simp) (by simp) rfl rfl (Or.inr ⟨rfl, rfl⟩)
  | disconnect =>
    cases h
    exact Stepped.disconnected rfl rfl
  | effect =>
    obtain ⟨hne, h⟩ := Option.ite_none_left_eq_some.1 h
    split at h
    · rename_i haddr
      cases h
      exact Stepped.cleared haddr
    · rename_i addr haddr
      cases h
      exact Stepped.asked haddr fun hshown => hne (haddr.trans hshown.symm)
  | answer i reply => exact answer_cases h
  | deliver i => exact deliver_cases h

/-! ## Whose identity it is -/

/-- The identity is empty, or it is that of the account with a name that was found for it. -/
def State.Identifies (s : State) (account : Option Hex) : Prop :=
  s.identity = ⟨none, none⟩ ∨ ∃ addr, account = some addr ∧ s.identity.address = some addr ∧
    (addr.key, s.identity.ens) ∈ s.resolved

/-- Once the effect of the last render has run, the identity is that of the account in the wallet. A
wallet that was disconnected has no account. -/
structure Attributed (s : State) : Prop where
  identity : s.shown = s.wallet.address → s.Identifies s.wallet.address
  dropped : s.dropped = true → s.wallet.address = none

/-- The same at any moment, also while a render with another account is due. -/
structure AtOnce (s : State) : Prop where
  identity : s.Identifies s.wallet.address
  dropped : s.dropped = true → s.wallet.address = none

/-- What is true of the lookups in every state. -/
structure Inv (s : State) : Prop where
  current : ∀ l ∈ s.lookups, l.cancelled = false → s.shown = some l.address
  found : ∀ l ∈ s.lookups, ∀ name, l.stage = .answered name → (l.address.key, name) ∈ s.resolved
  cache : ∀ e ∈ s.reverseCache, e ∈ s.resolved

theorem mem_cancelAll {l : Lookup} {ls : List Lookup} (h : l ∈ State.cancelAll ls) :
    l.cancelled = true ∧ ∃ l' ∈ ls, l'.address = l.address ∧ l'.stage = l.stage := by
  obtain ⟨l', hl', rfl⟩ := List.mem_map.1 h
  exact ⟨rfl, l', hl', rfl, rfl⟩

theorem Inv.of_report (hs : Inv s) (h : t.report = s.report) : Inv t := by
  obtain ⟨hshown, -, hlookups, hcache, hresolved⟩ : t.shown = s.shown ∧ t.identity = s.identity ∧
    t.lookups = s.lookups ∧ t.reverseCache = s.reverseCache ∧ t.resolved = s.resolved := by
    simpa [State.report] using h
  refine ⟨?_, ?_, ?_⟩
  · rw [hshown, hlookups]
    exact hs.current
  · rw [hlookups, hresolved]
    exact hs.found
  · rw [hcache, hresolved]
    exact hs.cache

theorem lookupEnsName_found (hs : Inv s) {addr : Hex} {name : Option JsString}
    (h : s.lookupEnsName addr = .answered name) : (addr.key, name) ∈ s.resolved := by
  unfold State.lookupEnsName at h
  split at h
  · rename_i e hfind
    cases h
    have hkey : e.1 = addr.key := by simpa using List.find?_some hfind
    exact hkey ▸ hs.cache e (List.mem_of_find?_eq_some hfind)
  · cases h

theorem Stepped.inv (h : Stepped s a t) (hs : Inv s) : Inv t := by
  cases h with
  | connected hreport => exact hs.of_report hreport
  | disconnected hreport => exact hs.of_report hreport
  | provider _ _ hreport => exact hs.of_report hreport
  | cleared haddr =>
    refine ⟨fun l hl hno => ?_, fun l hl name hname => ?_, hs.cache⟩
    · rw [(mem_cancelAll hl).1] at hno
      cases hno
    · obtain ⟨-, l', hl', haddr', hstage⟩ := mem_cancelAll hl
      exact haddr' ▸ hs.found l' hl' name (hstage.trans hname)
  | @asked addr haddr hshown =>
    refine ⟨fun l hl hno => ?_, fun l hl name hname => ?_, hs.cache⟩
    · rcases List.mem_append.1 hl with hl | hl
      · rw [(mem_cancelAll hl).1] at hno
        cases hno
      · rw [List.mem_singleton.1 hl]
    · rcases List.mem_append.1 hl with hl | hl
      · obtain ⟨-, l', hl', haddr', hstage⟩ := mem_cancelAll hl
        exact haddr' ▸ hs.found l' hl' name (hstage.trans hname)
      · obtain rfl := List.mem_singleton.1 hl
        exact lookupEnsName_found hs hname
  | @answered i addr cancelled reply hlookup =>
    have hmem := List.mem_of_getElem? hlookup
    refine ⟨fun l hl hno => ?_, fun l hl name hname => ?_, fun e he => ?_⟩
    · rcases List.mem_or_eq_of_mem_set hl with hl | rfl
      · exact hs.current l hl hno
      · exact hs.current ⟨addr, cancelled, .asking⟩ hmem hno
    · rcases List.mem_or_eq_of_mem_set hl with hl | rfl
      · exact List.mem_append_left _ (hs.found l hl name hname)
      · cases hname
        exact List.mem_append_right _ (List.mem_singleton_self _)
    · rcases List.mem_cons.1 he with rfl | he
      · exact List.mem_append_right _ (List.mem_singleton_self _)
      · exact List.mem_append_left _ (hs.cache e he)
  | ignored =>
    exact ⟨fun l hl => hs.current l (List.mem_of_mem_eraseIdx hl),
      fun l hl => hs.found l (List.mem_of_mem_eraseIdx hl), hs.cache⟩
  | delivered =>
    exact ⟨fun l hl => hs.current l (List.mem_of_mem_eraseIdx hl),
      fun l hl => hs.found l (List.mem_of_mem_eraseIdx hl), hs.cache⟩

/-- What a run keeps as long as its steps are expected: the identity is that of the last account that the
effect has run for. -/
structure Good (s : State) : Prop extends Inv s where
  identity : s.Identifies s.shown
  dropped : s.dropped = true → s.wallet.address = none

/-- The effect takes up an account only while no identity is reported, and between a `disconnect` and the
next `connect` no account is brought. -/
def Expected (s : State) : Action → Prop
  | .effect => s.wallet.address = none ∨ s.identity.address = none
  | a => s.dropped = true → s.brings a = none

theorem State.Identifies.of_report {account : Option Hex} (hs : s.Identifies account)
    (h : t.report = s.report) : t.Identifies account := by
  obtain ⟨-, hidentity, -, -, hresolved⟩ : t.shown = s.shown ∧ t.identity = s.identity ∧
    t.lookups = s.lookups ∧ t.reverseCache = s.reverseCache ∧ t.resolved = s.resolved := by
    simpa [State.report] using h
  unfold State.Identifies
  rw [hidentity, hresolved]
  exact hs

theorem expected_of_ne {s : State} {a : Action} (ha : a ≠ .effect) :
    Expected s a ↔ (s.dropped = true → s.brings a = none) := by
  cases a with
  | effect => exact absurd rfl ha
  | _ => exact Iff.rfl

theorem Stepped.good (h : Stepped s a t) (hs : Good s) (hguard : Expected s a) : Good t := by
  refine { toInv := h.inv hs.toInv, identity := ?_, dropped := ?_ }
  · have hreported : t.report = s.report → t.Identifies t.shown := fun hreport => by
      have hshown : t.shown = s.shown := congrArg Prod.fst hreport
      exact hshown ▸ hs.identity.of_report hreport
    cases h with
    | connected hreport => exact hreported hreport
    | disconnected hreport => exact hreported hreport
    | provider _ _ hreport => exact hreported hreport
    | cleared => exact Or.inl rfl
    | @asked addr haddr =>
      -- the identity is empty, and the lookup has yet to fill it
      have hnone : s.identity.address = none :=
        hguard.resolve_left fun h => Option.some_ne_none addr (haddr.symm.trans h)
      refine Or.inl (hs.identity.resolve_right ?_)
      rintro ⟨b, -, hb, -⟩
      exact Option.some_ne_none b (hb.symm.trans hnone)
    | answered =>
      refine hs.identity.imp id ?_
      rintro ⟨b, hshown, hb, hfound⟩
      exact ⟨b, hshown, hb, List.mem_append_left _ hfound⟩
    | ignored => exact hs.identity
    | @delivered i addr name hl =>
      have hmem := List.mem_of_getElem? hl
      exact Or.inr ⟨addr, hs.current _ hmem rfl, rfl, hs.found _ hmem name rfl⟩
  · cases h with
    | connected _ _ hdropped =>
      intro h
      rw [hdropped] at h
      cases h
    | disconnected _ haddr => exact fun _ => haddr
    | provider ha _ _ hdropped haddr =>
      intro h
      rw [hdropped] at h
      have hbrings := (expected_of_ne ha).1 hguard h
      rcases haddr with haddr | ⟨haddr, -⟩
      · exact haddr.trans hbrings
      · exact haddr.trans (hs.dropped h)
    | _ => exact hs.dropped

theorem Good.attributed (hs : Good s) : Attributed s :=
  ⟨fun hshown => hshown ▸ hs.identity, hs.dropped⟩

/-- A step that is not expected leaves a state that is not attributed. -/
theorem Stepped.expected (h : Stepped s a t) (hs : Good s) (ht : Attributed t) : Expected s a := by
  cases h with
  | connected => exact fun _ => rfl
  | disconnected => exact fun _ => rfl
  | provider ha _ _ hdropped haddr =>
    refine (expected_of_ne ha).2 fun h => ?_
    rcases haddr with haddr | ⟨-, hbrings⟩
    · exact haddr ▸ ht.dropped (hdropped.trans h)
    · exact hbrings
  | cleared haddr => exact Or.inl haddr
  | @asked addr haddr hshown =>
    refine Or.inr ?_
    rcases ht.identity haddr.symm with hempty | ⟨b, hb, hreported, -⟩
    · exact congrArg Identity.address hempty
    · -- the identity would be that of the new account, and it is that of the old one
      rcases hs.identity with hempty | ⟨c, hc, hreported', -⟩
      · exact congrArg Identity.address hempty
      · have hbc : b = c := Option.some.inj (hreported.symm.trans hreported')
        exact absurd (hc.trans (hbc ▸ hb.symm.trans haddr)) hshown
  | answered => exact fun _ => rfl
  | ignored => exact fun _ => rfl
  | delivered => exact fun _ => rfl

/-! ## At any moment -/

/-- The account after a step. -/
def State.accountAfter (s : State) : Action → Option Hex
  | .connectReply i (.ok _) =>
    match s.connects[i]? with
    | some (.chainId accs) => firstAccount accs
    | _ => s.wallet.address
  | .silentReply (.ok _) =>
    match s.silent with
    | some (.chainId accs) => firstAccount accs
    | _ => s.wallet.address
  | .accountsChanged accs => firstAccount accs
  | .disconnect => none
  | _ => s.wallet.address

/-- While an identity is reported no step changes the account; a lookup ends while its account is in the
wallet; and no account follows a `disconnect` without a `connect`. -/
structure ExpectedAtOnce (s : State) (a : Action) : Prop where
  kept : s.identity.address = none ∨ s.accountAfter a = s.wallet.address
  delivered : ∀ i addr name, a = .deliver i →
    s.lookups[i]? = some ⟨addr, false, .answered name⟩ → s.wallet.address = some addr
  dropped : s.dropped = true → s.accountAfter a = none

theorem AtOnce.attributed (hs : AtOnce s) : Attributed s := ⟨fun _ => hs.identity, hs.dropped⟩

theorem step_account (h : s.step installed a = some t) : t.wallet.address = s.accountAfter a := by
  cases a with
  | connect =>
    cases h
    unfold State.connect
    split
    · rfl
    · rfl
  | connectReply i reply =>
    obtain ⟨request, hrequest, rfl⟩ := Option.map_eq_some_iff.1 h
    cases reply with
    | error msg => rfl
    | ok v => cases request <;> simp [State.accountAfter, hrequest]
  | silentReply reply =>
    obtain ⟨request, hrequest, rfl⟩ := Option.map_eq_some_iff.1 h
    cases reply with
    | error msg => rfl
    | ok v => cases request <;> simp [State.accountAfter, hrequest]
  | accountsChanged accs =>
    obtain ⟨-, h⟩ := Option.ite_none_right_eq_some.1 h
    cases h
    rfl
  | chainChanged chain =>
    obtain ⟨-, h⟩ := Option.ite_none_right_eq_some.1 h
    cases h
    rfl
  | disconnect =>
    cases h
    rfl
  | effect =>
    obtain ⟨-, h⟩ := Option.ite_none_left_eq_some.1 h
    split at h
    · cases h
      rfl
    · cases h
      rfl
  | answer i reply =>
    change s.answer i reply = some t at h
    unfold State.answer at h
    split at h
    · cases h
      rfl
    · cases h
  | deliver i =>
    change s.deliver i = some t at h
    unfold State.deliver at h
    split at h
    · split at h
      · cases h
        rfl
      · cases h
        rfl
    · cases h

/-- Another account than the one in the wallet has no identity yet. -/
theorem identifies_iff (hs : s.Identifies s.wallet.address) (hreport : t.report = s.report)
    {account : Option Hex} :
    t.Identifies account ↔ s.identity.address = none ∨ account = s.wallet.address := by
  constructor
  · intro ht
    rcases ht.of_report hreport.symm with hempty | ⟨addr, rfl, haddr, -⟩
    · exact Or.inl (congrArg Identity.address hempty)
    · rcases hs with hempty | ⟨b, hb, hreported, -⟩
      · exact Or.inl (congrArg Identity.address hempty)
      · exact Or.inr (hb.trans (hreported.symm.trans haddr)).symm
  · intro h
    have hsame : s.Identifies account := by
      rcases h with hnone | rfl
      · refine Or.inl (hs.resolve_right ?_)
        rintro ⟨b, -, hb, -⟩
        exact Option.some_ne_none b (hb.symm.trans hnone)
      · exact hs
    exact hsame.of_report hreport

theorem step_atOnce_iff (h : s.step installed a = some t) (hinv : Inv s) (hs : AtOnce s) :
    AtOnce t ↔ ExpectedAtOnce s a := by
  have haddr := step_account h
  cases step_cases h with
  | connected hreport _ hdropped =>
    refine iff_of_true ⟨?_, fun h => ?_⟩ ⟨Or.inr rfl, nofun, hs.dropped⟩
    · exact (identifies_iff hs.identity hreport).2 (Or.inr haddr)
    · rw [hdropped] at h
      cases h
  | disconnected hreport hnone =>
    constructor
    · intro ht
      exact ⟨haddr ▸ (identifies_iff hs.identity hreport).1 ht.identity, nofun, fun _ => rfl⟩
    · intro hg
      exact ⟨(identifies_iff hs.identity hreport).2 (haddr ▸ hg.kept), fun _ => hnone⟩
  | provider _ hdeliver hreport hdropped =>
    constructor
    · intro ht
      refine ⟨haddr ▸ (identifies_iff hs.identity hreport).1 ht.identity, ?_, ?_⟩
      · intro i _ _ ha
        exact absurd ha (hdeliver i)
      · intro h
        exact haddr ▸ ht.dropped (hdropped.trans h)
    · intro hg
      refine ⟨(identifies_iff hs.identity hreport).2 (haddr ▸ hg.kept), fun h => ?_⟩
      exact haddr ▸ hg.dropped (hdropped.symm.trans h)
  | cleared => exact iff_of_true ⟨Or.inl rfl, hs.dropped⟩ ⟨Or.inr rfl, nofun, hs.dropped⟩
  | asked => exact iff_of_true ⟨hs.identity, hs.dropped⟩ ⟨Or.inr rfl, nofun, hs.dropped⟩
  | answered =>
    refine iff_of_true ⟨hs.identity.imp id ?_, hs.dropped⟩ ⟨Or.inr rfl, nofun, hs.dropped⟩
    rintro ⟨b, hb, hreported, hfound⟩
    exact ⟨b, hb, hreported, List.mem_append_left _ hfound⟩
  | @ignored i addr name hl =>
    refine iff_of_true ⟨hs.identity, hs.dropped⟩ ⟨Or.inr rfl, ?_, hs.dropped⟩
    rintro j addr' name' ⟨⟩ hl'
    rw [hl] at hl'
    cases hl'
  | @delivered i addr name hl =>
    constructor
    · intro ht
      have haddr' : s.wallet.address = some addr := by
        rcases ht.identity with hempty | ⟨b, hb, hreported, -⟩
        · cases hempty
        · exact hb.trans hreported.symm
      refine ⟨Or.inr rfl, ?_, hs.dropped⟩
      rintro j b name' ⟨⟩ hl'
      rw [hl] at hl'
      cases hl'
      exact haddr'
    · intro hg
      have hfound := hinv.found _ (List.mem_of_getElem? hl) name rfl
      exact ⟨Or.inr ⟨addr, hg.delivered i addr name rfl hl, rfl, hfound⟩, hs.dropped⟩

theorem good_init : Good (State.init installed preferred) := by
  refine ⟨⟨?_, ?_, ?_⟩, Or.inl rfl, fun _ => rfl⟩
  · rintro l ⟨⟩
  · rintro l ⟨⟩
  · rintro e ⟨⟩

/-- **In which runs the identity is always that of the account**, and a disconnected wallet stays without
one: at any moment, and once the effect of each render has run. -/
theorem run_attributed_iff {as : List Action}
    (hrun : (page installed preferred).run (State.init installed preferred) as = some s) :
    ((page installed preferred).Always AtOnce (State.init installed preferred) as ↔
      (page installed preferred).Meets ExpectedAtOnce (State.init installed preferred) as) ∧
      ((page installed preferred).Always Attributed (State.init installed preferred) as ↔
        (page installed preferred).Meets Expected (State.init installed preferred) as) := by
  constructor
  · refine Lts.always_iff_meets (I := fun s => Inv s ∧ AtOnce s) (fun _ h => h.2) ?_ ?_ ?_ hrun
    · intro s a t hs hstep hguard
      exact ⟨(step_cases hstep).inv hs.1, (step_atOnce_iff hstep hs.1 hs.2).2 hguard⟩
    · intro s a t hs hstep ht
      exact (step_atOnce_iff hstep hs.1 hs.2).1 ht
    · exact ⟨good_init.toInv, ⟨Or.inl rfl, fun _ => rfl⟩⟩
  · refine Lts.always_iff_meets (I := Good) (fun _ h => h.attributed) ?_ ?_ good_init hrun
    · intro s a t hs hstep hguard
      exact (step_cases hstep).good hs hguard
    · intro s a t hs hstep ht
      exact (step_cases hstep).expected hs ht

end

def alice : Hex := ⟨js "0xd8da6bf26964af9d7eed9e03e53415d37aa96045", by decide⟩

def bob : Hex := ⟨js "0x5b38da6a701c568545dcfcb03fcb875f56beddc4", by decide⟩

/-- A user connects as `alice`, whose name is found. -/
def signIn : List Action :=
  [.connect, .connectReply 0 (.ok (.arr [.str alice.text])), .connectReply 0 (.ok (.str (js "0x1"))),
    .effect, .answer 0 (.ok (some (js "alice.eth"))), .deliver 0]

theorem run_attributed_signIn : ∃ s, (page true false).run (State.init true false) signIn = some s ∧
    s.identity = ⟨some alice, some (js "alice.eth")⟩ ∧
    (page true false).Always AtOnce (State.init true false) signIn ∧
    (page true false).Always Attributed (State.init true false) signIn := by
  have hrun : ((page true false).run (State.init true false) signIn).map State.identity =
      some ⟨some alice, some (js "alice.eth")⟩ := by decide +kernel
  obtain ⟨s, hs, hidentity⟩ := Option.map_eq_some_iff.1 hrun
  have hiff := run_attributed_iff hs
  refine ⟨s, hs, hidentity, hiff.1.2 ?_, hiff.2.2 ?_⟩
  · refine ⟨⟨Or.inl rfl, nofun, nofun⟩, ⟨Or.inl rfl, nofun, nofun⟩, ⟨Or.inl rfl, nofun, nofun⟩,
      ⟨Or.inl rfl, nofun, nofun⟩, ⟨Or.inl rfl, nofun, nofun⟩, ⟨Or.inl rfl, ?_, nofun⟩, trivial⟩
    rintro i addr name ⟨⟩ ⟨⟩
    rfl
  · exact ⟨nofun, nofun, nofun, Or.inr rfl, nofun, nofun, trivial⟩

/-- After a switch to another account the identity is still the first one's, and an event of the provider
brings an account back after a `disconnect`. -/
theorem switched_and_revived :
    (∃ s, (page true false).run (State.init true false)
        (signIn ++ [.accountsChanged (.arr [.str bob.text]), .effect]) = some s ∧
      s.wallet.address = some bob ∧ s.shown = some bob ∧
      s.identity = ⟨some alice, some (js "alice.eth")⟩ ∧ ¬ Attributed s ∧ ¬ AtOnce s) ∧
    ∃ s, (page true false).run (State.init true false)
        (signIn ++ [.disconnect, .effect, .accountsChanged (.arr [.str bob.text])]) = some s ∧
      s.dropped = true ∧ s.wallet.address = some bob ∧ ¬ Attributed s ∧ ¬ AtOnce s := by
  constructor
  · have hrun : ((page true false).run (State.init true false)
        (signIn ++ [.accountsChanged (.arr [.str bob.text]), .effect])).map
          (fun s => (s.wallet.address, s.shown, s.identity)) =
        some (some bob, some bob, ⟨some alice, some (js "alice.eth")⟩) := by decide +kernel
    obtain ⟨s, hs, heq⟩ := Option.map_eq_some_iff.1 hrun
    obtain ⟨haddr, heq⟩ := Prod.mk.inj heq
    obtain ⟨hshown, hidentity⟩ := Prod.mk.inj heq
    have hnot : ¬ Attributed s := by
      intro h
      rcases h.identity (hshown.trans haddr.symm) with hempty | ⟨addr, hbob, halice, -⟩
      · rw [hidentity] at hempty
        cases hempty
      · rw [haddr] at hbob
        rw [hidentity, ← hbob] at halice
        exact absurd halice (by decide)
    exact ⟨s, hs, haddr, hshown, hidentity, hnot, fun h => hnot h.attributed⟩
  · have hrun : ((page true false).run (State.init true false)
        (signIn ++ [.disconnect, .effect, .accountsChanged (.arr [.str bob.text])])).map
          (fun s => (s.dropped, s.wallet.address)) = some (true, some bob) := by decide +kernel
    obtain ⟨s, hs, heq⟩ := Option.map_eq_some_iff.1 hrun
    obtain ⟨hdropped, haddr⟩ := Prod.mk.inj heq
    have hnot : ¬ Attributed s := fun h =>
      Option.some_ne_none bob (haddr.symm.trans (h.dropped hdropped))
    exact ⟨s, hs, hdropped, haddr, hnot, fun h => hnot h.attributed⟩

end SealedSky.Web.Wallet
