import SealedSky.Js.Digest
import SealedSky.Js.Number
import SealedSky.Lib.Lts

/-!
# The signing panel (`sealed-sky-web/src/components/UsbSignInference.tsx`)

The panel hashes its text in an effect: the digest arrives some time after the text has been
rendered. A click builds its request from what was rendered last. So `cells` and `view` are apart
here: `cells` is the state with every `setState` applied, `view` the last committed render, whose
values the handlers close over. Effects run after a render and before the next one.

The effect hashes the text as it stands, and the handlers send it trimmed.

* `requests_hashed` — every request carries the digest of its own text in the runs that click only
  when the digest shown is that of the trimmed text.
* `requests_hashed_of_settled` — so it is when the digest of the rendered text has arrived and that
  text has no white space around it.
-/
namespace SealedSky.Web

open Js Sha256

/-- sha256Hex.ts:2. -/
def sha256Utf8Hex0x (message : JsString) : JsString := js "0x" ++ hexText (sha256 (utf8 message))

/-- UsbSignInference.tsx:18. -/
def normalizeProofHex (p : JsString) : JsString :=
  let t := trim p
  if (js "0x").isPrefixOf t || (js "0X").isPrefixOf t then t.drop 2 else t

inductive Status where
  | idle
  | busy
  | ok
  | err
  deriving DecidableEq

/-- The `useState` cells, those apart that are only displayed. `hashed` is history: the text whose
digest `contentHash` is. -/
structure Cells where
  sealedSkyText : JsString
  timestamp : JsString
  contentHash : JsString
  hashBusy : Bool
  hmacOut : JsString
  signStatus : Status
  proof : JsString
  submitStatus : Status
  hashed : Option JsString

structure Props where
  itemId : JsString
  plaintext : JsString
  deriving DecidableEq

/-! ## Requests -/

/-- The body of `onSign` (UsbSignInference.tsx:99). -/
structure SignBody where
  sealedSkyText : JsString
  timestamp : JsString
  imageHash : JsString

/-- The body of `onSubmitSepolia` (UsbSignInference.tsx:161). -/
structure SubmitBody where
  sealedSkyText : JsString
  timestamp : JsNum
  imageHash : JsString
  proof : JsString

def onSign (view : Cells) : SignBody where
  sealedSkyText := trim view.sealedSkyText
  timestamp := trim view.timestamp
  imageHash := trim view.contentHash

/-- The body that is submitted, or the error that is shown. -/
def onSubmitSepolia (view : Cells) : Except String SubmitBody :=
  let tsNum := stringToNumber (trim view.timestamp)
  if !tsNum.isFinite then
    .error "Timestamp must be a valid number (Unix seconds), matching the SignInference payload."
  else
    let normProof := normalizeProofHex view.proof
    if normProof = [] then
      .error "Paste the device HMAC proof (run SignInference first, or enter hex manually)."
    else .ok {
      sealedSkyText := trim view.sealedSkyText
      timestamp := tsNum
      imageHash := trim view.contentHash
      proof := normProof }

inductive Request where
  | sign (body : SignBody)
  | submit (body : SubmitBody)

def Request.sealedSkyText : Request → JsString
  | .sign body => body.sealedSkyText
  | .submit body => body.sealedSkyText

def Request.imageHash : Request → JsString
  | .sign body => body.imageHash
  | .submit body => body.imageHash

/-- The request carries the digest of its own text. -/
def Request.Hashed (r : Request) : Prop := r.imageHash = sha256Utf8Hex0x r.sealedSkyText

/-! ## The panel -/

/-- What the three effects depend on. -/
structure Deps where
  props : Props
  signStatus : Status
  hmacOut : JsString
  sealedSkyText : JsString
  deriving DecidableEq

structure Panel where
  cells : Cells
  view : Cells
  /-- The props of the last render. -/
  props : Props
  /-- What the effects depended on when they last ran. -/
  deps : Option Deps
  /-- The effects of the last render have run. -/
  flushed : Bool
  /-- The text of the hash run that is not cancelled. -/
  hashing : Option JsString
  /-- Requests without an answer yet. -/
  signing : ℕ
  submitting : ℕ
  sent : List Request

inductive Act where
  /-- React renders and commits the panel, with the parent's props of that moment. -/
  | render (props : Props)
  /-- The effects of the last render run; `now` is what a reset writes into the timestamp. -/
  | flush (now : JsString)
  | hashDone
  | hashFail
  | editText (s : JsString)
  | editTimestamp (s : JsString)
  | editProof (s : JsString)
  | clickSign
  | signDone (hash : JsString)
  | signFail
  | clickSubmit
  | submitDone (ok : Bool)

def Panel.viewDeps (s : Panel) : Deps :=
  ⟨s.props, s.view.signStatus, s.view.hmacOut, s.view.sealedSkyText⟩

/-- The effect that resets the form (UsbSignInference.tsx:54). -/
def resetEffect (s : Panel) (now : JsString) (c : Cells) : Cells :=
  if s.deps.map (·.props) = some s.props then c
  else { c with
    sealedSkyText := s.props.plaintext, timestamp := now, hmacOut := [], signStatus := .idle
    proof := [], submitStatus := .idle }

/-- The effect that fills in the proof (UsbSignInference.tsx:70). -/
def proofEffect (s : Panel) (c : Cells) : Cells :=
  if s.deps.map (fun d => (d.signStatus, d.hmacOut)) = some (s.view.signStatus, s.view.hmacOut) then c
  else if s.view.signStatus = .ok ∧ s.view.hmacOut ≠ [] then
    { c with proof := normalizeProofHex s.view.hmacOut }
  else c

/-- The effect that hashes (UsbSignInference.tsx:74); a new run cancels the one before it. -/
def hashEffect (s : Panel) (c : Cells) : Cells × Option JsString :=
  if s.deps.map (·.sealedSkyText) = some s.view.sealedSkyText then (c, s.hashing)
  else ({ c with hashBusy := true }, some s.view.sealedSkyText)

def flushEffects (s : Panel) (now : JsString) : Panel :=
  let r := hashEffect s (proofEffect s (resetEffect s now s.cells))
  { s with cells := r.1, hashing := r.2, deps := some s.viewDeps, flushed := true }

def Cells.setSign (c : Cells) (status : Status) (hmacOut : JsString) : Cells :=
  { c with signStatus := status, hmacOut }

def Cells.setSubmit (c : Cells) (status : Status) : Cells := { c with submitStatus := status }

/-- A button is enabled when its request is not under way and there is a digest. -/
def disabled (status : Status) (view : Cells) : Bool := status = .busy || view.contentHash = []

def panelStep (s : Panel) : Act → Option Panel
  | .render props =>
    if s.flushed then some { s with view := s.cells, props, flushed := false } else none
  | .flush now => if s.flushed then none else some (flushEffects s now)
  | .hashDone => s.hashing.map fun t => { s with
      cells := { s.cells with
        contentHash := sha256Utf8Hex0x t, hashed := some t, hashBusy := false }
      hashing := none }
  | .hashFail => s.hashing.map fun _ => { s with
      cells := { s.cells with contentHash := [], hashed := none, hashBusy := false }
      hashing := none }
  | .editText x => some { s with cells := { s.cells with sealedSkyText := x } }
  | .editTimestamp x => some { s with cells := { s.cells with timestamp := x } }
  | .editProof x => some { s with cells := { s.cells with proof := x } }
  | .clickSign =>
    if disabled s.view.signStatus s.view then none
    else some { s with
      cells := s.cells.setSign .busy [], signing := s.signing + 1
      sent := s.sent ++ [.sign (onSign s.view)] }
  | .signDone hash =>
    if s.signing = 0 then none
    else some { s with cells := s.cells.setSign .ok hash, signing := s.signing - 1 }
  | .signFail =>
    if s.signing = 0 then none
    else some { s with
      cells := s.cells.setSign .err s.cells.hmacOut, signing := s.signing - 1 }
  | .clickSubmit =>
    if disabled s.view.submitStatus s.view then none
    else
      match onSubmitSepolia s.view with
      | .error _ => some { s with cells := s.cells.setSubmit .err }
      | .ok body => some { s with
          cells := s.cells.setSubmit .busy, submitting := s.submitting + 1
          sent := s.sent ++ [.submit body] }
  | .submitDone ok =>
    if s.submitting = 0 then none
    else some { s with
      cells := s.cells.setSubmit (if ok then .ok else .err), submitting := s.submitting - 1 }

/-- The first render. -/
def mounted (props : Props) (now : JsString) : Panel :=
  let c : Cells := ⟨props.plaintext, now, [], false, [], .idle, [], .idle, none⟩
  ⟨c, c, props, none, false, none, 0, 0, []⟩

def panelLts (props : Props) (now : JsString) : Lts Panel Act := ⟨mounted props now, panelStep⟩

/-! ## What is sent -/

/-- The request of a click. -/
def request (view : Cells) : Act → Option Request
  | .clickSign => some (.sign (onSign view))
  | .clickSubmit =>
    match onSubmitSepolia view with
    | .ok body => some (.submit body)
    | .error _ => none
  | _ => none

theorem onSubmitSepolia_ok {view : Cells} {body : SubmitBody} :
    onSubmitSepolia view = .ok body ↔
      (stringToNumber (trim view.timestamp)).isFinite = true ∧ normalizeProofHex view.proof ≠ [] ∧
        body = ⟨trim view.sealedSkyText, stringToNumber (trim view.timestamp),
          trim view.contentHash, normalizeProofHex view.proof⟩ := by
  unfold onSubmitSepolia
  simp only
  by_cases hfin : (stringToNumber (trim view.timestamp)).isFinite = true
  · by_cases hproof : normalizeProofHex view.proof = []
    · simp [hfin, hproof]
    · simp [hfin, hproof, eq_comm]
  · simp [hfin]

theorem request_fields {view : Cells} {a : Act} {r : Request} (h : r ∈ request view a) :
    r.sealedSkyText = trim view.sealedSkyText ∧ r.imageHash = trim view.contentHash := by
  cases a with
  | clickSign =>
    cases h
    exact ⟨rfl, rfl⟩
  | clickSubmit =>
    simp only [request] at h
    split at h
    · rename_i body hbody
      obtain ⟨-, -, rfl⟩ := onSubmitSepolia_ok.1 hbody
      cases h
      exact ⟨rfl, rfl⟩
    · cases h
  | _ => cases h

variable {s t : Panel} {a : Act}

/-- A step sends the request of its click, and a click needs a digest on display. -/
theorem panelStep_sent (h : panelStep s a = some t) :
    t.sent = s.sent ++ (request s.view a).toList ∧
      ((request s.view a).isSome → s.view.contentHash ≠ []) := by
  have hnone : ∀ l : List Request, l = l ++ (none : Option Request).toList := fun l =>
    (List.append_nil l).symm
  cases a with
  | render props =>
    simp only [panelStep] at h
    split at h
    · cases h
      exact ⟨hnone _, nofun⟩
    · cases h
  | hashDone | hashFail =>
    obtain ⟨x, -, rfl⟩ := Option.map_eq_some_iff.1 h
    exact ⟨hnone _, nofun⟩
  | editText x | editTimestamp x | editProof x =>
    cases h
    exact ⟨hnone _, nofun⟩
  | flush _ | signDone _ | signFail | submitDone _ =>
    simp only [panelStep] at h
    split at h
    · cases h
    · cases h
      exact ⟨hnone _, nofun⟩
  | clickSign =>
    simp only [panelStep] at h
    split at h
    · cases h
    · rename_i hdis
      cases h
      exact ⟨rfl, fun _ hempty => hdis (by simp [disabled, hempty])⟩
  | clickSubmit =>
    simp only [panelStep] at h
    split at h
    · cases h
    · rename_i hdis
      have hshown : s.view.contentHash ≠ [] := fun hempty => hdis (by simp [disabled, hempty])
      split at h
      · rename_i e he
        cases h
        simp only [request, he]
        exact ⟨hnone _, nofun⟩
      · rename_i body hbody
        cases h
        simp only [request, hbody]
        exact ⟨rfl, fun _ => hshown⟩

/-! ## What the digest is of -/

/-- `contentHash` is the digest of `hashed`, or empty. -/
def Cells.Digest (c : Cells) : Prop :=
  c.contentHash = (c.hashed.map sha256Utf8Hex0x).getD []

/-- A run of the hash effect is under way for the text of its last dependencies, or its digest has
arrived, or it has failed. -/
structure PanelInv (s : Panel) : Prop where
  cells : s.cells.Digest
  view : s.view.Digest
  flushed : s.flushed = true → s.deps.map (·.sealedSkyText) = some s.view.sealedSkyText
  hashing : ∀ x, s.hashing = some x → s.deps.map (·.sealedSkyText) = some x
  hashed : s.hashing = none → ∀ x, s.cells.hashed = some x → s.deps.map (·.sealedSkyText) = some x

theorem panelInv_mounted (props : Props) (now : JsString) : PanelInv (mounted props now) where
  cells := rfl
  view := rfl
  flushed := nofun
  hashing := nofun
  hashed := nofun

theorem flushEffects_hash (s : Panel) (now : JsString) :
    (flushEffects s now).cells.contentHash = s.cells.contentHash ∧
      (flushEffects s now).cells.hashed = s.cells.hashed := by
  unfold flushEffects hashEffect proofEffect resetEffect
  simp only
  split_ifs <;> exact ⟨rfl, rfl⟩

theorem flushEffects_hashing (s : Panel) (now : JsString) :
    (flushEffects s now).hashing =
      if s.deps.map (·.sealedSkyText) = some s.view.sealedSkyText then s.hashing
      else some s.view.sealedSkyText := by
  unfold flushEffects hashEffect
  simp only
  split_ifs <;> rfl

theorem panelInv_flush (hi : PanelInv s) (now : JsString) : PanelInv (flushEffects s now) := by
  obtain ⟨hhash, hhashed⟩ := flushEffects_hash s now
  have hcells : (flushEffects s now).cells.Digest := by
    rw [Cells.Digest, hhash, hhashed]
    exact hi.cells
  refine ⟨hcells, hi.view, fun _ => rfl, fun x hx => ?_, fun hnone x hx => ?_⟩
  · rw [flushEffects_hashing] at hx
    split_ifs at hx with hsame
    · rw [hi.hashing x hx] at hsame
      exact hsame.symm
    · exact hx
  · rw [flushEffects_hashing] at hnone
    split_ifs at hnone with hsame
    rw [hhashed] at hx
    rw [hi.hashed hnone x hx] at hsame
    exact hsame.symm

/-- A step that leaves the digest, the view and the effects alone. -/
theorem PanelInv.frame (hi : PanelInv s) (hhash : t.cells.contentHash = s.cells.contentHash)
    (hhashed : t.cells.hashed = s.cells.hashed) (hview : t.view = s.view)
    (hflushed : t.flushed = s.flushed) (hdeps : t.deps = s.deps) (hhashing : t.hashing = s.hashing) :
    PanelInv t := by
  refine ⟨?_, ?_, ?_, ?_, ?_⟩
  · rw [Cells.Digest, hhash, hhashed]
    exact hi.cells
  · rw [hview]
    exact hi.view
  · rw [hflushed, hdeps, hview]
    exact hi.flushed
  · rw [hhashing, hdeps]
    exact hi.hashing
  · rw [hhashing, hhashed, hdeps]
    exact hi.hashed

/-- **Every step keeps it.** -/
theorem panelInv_step (hi : PanelInv s) (h : panelStep s a = some t) : PanelInv t := by
  cases a with
  | render props =>
    simp only [panelStep] at h
    split at h
    · cases h
      exact ⟨hi.cells, hi.cells, nofun, hi.hashing, hi.hashed⟩
    · cases h
  | flush now =>
    simp only [panelStep] at h
    split at h
    · cases h
    · cases h
      exact panelInv_flush hi now
  | hashDone =>
    obtain ⟨x, hx, rfl⟩ := Option.map_eq_some_iff.1 h
    refine ⟨rfl, hi.view, hi.flushed, nofun, fun _ y hy => ?_⟩
    cases hy
    exact hi.hashing x hx
  | hashFail =>
    obtain ⟨x, -, rfl⟩ := Option.map_eq_some_iff.1 h
    exact ⟨rfl, hi.view, hi.flushed, nofun, nofun⟩
  | editText x | editTimestamp x | editProof x =>
    cases h
    exact hi.frame rfl rfl rfl rfl rfl rfl
  | signDone _ | signFail | submitDone _ | clickSign =>
    simp only [panelStep] at h
    split at h
    · cases h
    · cases h
      exact hi.frame rfl rfl rfl rfl rfl rfl
  | clickSubmit =>
    simp only [panelStep] at h
    split at h
    · cases h
    · split at h
      · cases h
        exact hi.frame rfl rfl rfl rfl rfl rfl
      · cases h
        exact hi.frame rfl rfl rfl rfl rfl rfl

/-! ## Requests over whole runs -/

theorem trim_sha256Utf8Hex0x (x : JsString) : trim (sha256Utf8Hex0x x) = sha256Utf8Hex0x x := by
  refine trim_of_noSpace fun u hu => ?_
  have hplain : ∀ u ∈ js "0x" ++ js "0123456789abcdef", isSpace u = false := by decide
  refine hplain u ?_
  rcases List.mem_append.1 hu with h | h
  · exact List.mem_append_left _ h
  · exact List.mem_append_right _ (mem_hexText h)

theorem sha256Utf8Hex0x_inj {x y : JsString} :
    sha256Utf8Hex0x x = sha256Utf8Hex0x y ↔ sha256 (utf8 x) = sha256 (utf8 y) := by
  constructor
  · intro h
    exact hexText_injective (List.append_cancel_left h)
  · intro h
    rw [sha256Utf8Hex0x, h, sha256Utf8Hex0x]

/-- **When a click sends the digest of the text it sends**: when the digest on display is that of
the trimmed text. -/
theorem request_hashed_iff {r : Request} (hi : PanelInv s) (h : panelStep s a = some t)
    (hr : r ∈ request s.view a) :
    r.Hashed ↔ ∃ x, s.view.hashed = some x ∧
      sha256 (utf8 x) = sha256 (utf8 (trim s.view.sealedSkyText)) := by
  obtain ⟨htext, hhash⟩ := request_fields hr
  have hshown := (panelStep_sent h).2 (Option.isSome_of_mem hr)
  have hdigest := hi.view
  unfold Request.Hashed
  rw [htext, hhash]
  cases hx : s.view.hashed with
  | none =>
    rw [Cells.Digest, hx] at hdigest
    exact absurd hdigest hshown
  | some x =>
    rw [Cells.Digest, hx] at hdigest
    have hdigest : s.view.contentHash = sha256Utf8Hex0x x := hdigest
    rw [hdigest, trim_sha256Utf8Hex0x, sha256Utf8Hex0x_inj]
    simp

/-- At a click that sends something the digest on display is that of the trimmed text. -/
def HashedAsSent (s : Panel) (a : Act) : Prop :=
  (request s.view a).isSome → s.view.hashed = some (trim s.view.sealedSkyText)

instance (s : Panel) (a : Act) : Decidable (HashedAsSent s a) :=
  inferInstanceAs (Decidable (_ → _))

/-- At a click that sends something no text waits for its digest, and the rendered text has no
white space around it. -/
def Settled (s : Panel) (a : Act) : Prop :=
  (request s.view a).isSome → s.flushed = true ∧ s.hashing = none ∧
    s.view.hashed = s.cells.hashed ∧ trim s.view.sealedSkyText = s.view.sealedSkyText

/-- Requests are right as long as the clicks are. -/
theorem sent_hashed_step (hs : PanelInv s ∧ ∀ r ∈ s.sent, r.Hashed)
    (hg : HashedAsSent s a) (h : panelStep s a = some t) : PanelInv t ∧ ∀ r ∈ t.sent, r.Hashed := by
  refine ⟨panelInv_step hs.1 h, fun r hr => ?_⟩
  rw [(panelStep_sent h).1] at hr
  rcases List.mem_append.1 hr with hr | hr
  · exact hs.2 r hr
  · have hr := Option.mem_toList.1 hr
    exact (request_hashed_iff hs.1 h hr).2 ⟨_, hg (Option.isSome_of_mem hr), rfl⟩

/-- **Every request carries the digest of its own text**, in every run whose clicks come when the
digest on display is that of the trimmed text. -/
theorem requests_hashed (props : Props) (now : JsString) {as : List Act}
    (hmeets : (panelLts props now).Meets HashedAsSent (mounted props now) as)
    (hrun : (panelLts props now).run (mounted props now) as = some s) :
    ∀ r ∈ s.sent, r.Hashed :=
  (Lts.run_inv_of_meets (P := fun s => PanelInv s ∧ ∀ r ∈ s.sent, r.Hashed)
    (fun _ _ _ hs hg h => sent_hashed_step hs hg h)
    ⟨panelInv_mounted props now, nofun⟩ hmeets hrun).2

/-- What is on display once a plaintext has been hashed. -/
def shown (text now : JsString) : Cells :=
  ⟨text, now, sha256Utf8Hex0x text, false, [], .idle, [], .idle, some text⟩

/-- Mounting, waiting for the digest, and signing. -/
def signing (props : Props) (now : JsString) : List Act :=
  [.flush now, .hashDone, .render props, .clickSign]

theorem run_signing (props : Props) (now : JsString) :
    ∃ s, (panelLts props now).run (mounted props now) (signing props now) = some s ∧
      s.sent = [.sign (onSign (shown props.plaintext now))] :=
  ⟨_, rfl, rfl⟩

theorem onSign_shown (text now : JsString) :
    (Request.sign (onSign (shown text now))).imageHash = sha256Utf8Hex0x text :=
  trim_sha256Utf8Hex0x text

theorem requests_hashed_hi :
    ∃ s, (panelLts ⟨[], js "hi"⟩ (js "1")).run (mounted ⟨[], js "hi"⟩ (js "1"))
        (signing ⟨[], js "hi"⟩ (js "1")) = some s ∧
      s.sent ≠ [] ∧ ∀ r ∈ s.sent, r.Hashed := by
  obtain ⟨s, hrun, hsent⟩ := run_signing ⟨[], js "hi"⟩ (js "1")
  exact ⟨s, hrun, by simp [hsent],
    requests_hashed ⟨[], js "hi"⟩ (js "1") (by decide +kernel) hrun⟩

/-- A plaintext with a blank in front: the digest is of the text with it, the request without. -/
theorem request_blank :
    ∃ s, (panelLts ⟨[], js " hi"⟩ (js "1")).run (mounted ⟨[], js " hi"⟩ (js "1"))
        (signing ⟨[], js " hi"⟩ (js "1")) = some s ∧
      ∃ r ∈ s.sent, r.sealedSkyText = js "hi" ∧ r.imageHash = sha256Utf8Hex0x (js " hi") ∧
        ¬ r.Hashed := by
  obtain ⟨s, hrun, hsent⟩ := run_signing ⟨[], js " hi"⟩ (js "1")
  have htext : (Request.sign (onSign (shown (js " hi") (js "1")))).sealedSkyText = js "hi" := by
    decide
  have hhash := onSign_shown (js " hi") (js "1")
  have hne : sha256Utf8Hex0x (js " hi") ≠ sha256Utf8Hex0x (js "hi") := by decide +kernel
  refine ⟨s, hrun, .sign (onSign (shown (js " hi") (js "1"))), ?_, htext, hhash, fun h => hne ?_⟩
  · rw [hsent]
    exact List.mem_singleton_self _
  · rw [← hhash, ← htext]
    exact h

theorem hashedAsSent_of_settled (hi : PanelInv s) (h : panelStep s a = some t) (hg : Settled s a) :
    HashedAsSent s a := by
  intro hsends
  obtain ⟨hflushed, hnone, hview, htrim⟩ := hg hsends
  have hshown := (panelStep_sent h).2 hsends
  cases hx : s.view.hashed with
  | none =>
    have hdigest := hi.view
    rw [Cells.Digest, hx] at hdigest
    exact absurd hdigest hshown
  | some x =>
    have hdep := hi.hashed hnone x (hview ▸ hx)
    rw [hi.flushed hflushed, Option.some.injEq] at hdep
    rw [htrim, hdep]

/-- **Waiting is enough**: no click before the digest of the rendered text is on display, and no
white space around the text. -/
theorem requests_hashed_of_settled (props : Props) (now : JsString) {as : List Act}
    (hmeets : (panelLts props now).Meets Settled (mounted props now) as)
    (hrun : (panelLts props now).run (mounted props now) as = some s) :
    ∀ r ∈ s.sent, r.Hashed :=
  (Lts.run_inv_of_meets (P := fun s => PanelInv s ∧ ∀ r ∈ s.sent, r.Hashed)
    (fun _ _ _ hs hg h => sent_hashed_step hs (hashedAsSent_of_settled hs.1 h hg) h)
    ⟨panelInv_mounted props now, nofun⟩ hmeets hrun).2

end SealedSky.Web
