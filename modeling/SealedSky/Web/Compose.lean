import SealedSky.Lib.Lts
import SealedSky.Lib.Memo
import SealedSky.Web.Share

/-!
# Who a capsule is for (`sealed-sky-web/src/components/Compose.tsx:37-60`, `lib/ens.ts`)

While a recipient is typed, an effect waits, asks for the address of the name and shows what comes of it.
A newer text cancels the effect of an older one, whose question may still be on its way. The addresses
are kept in a table for the life of the page, and so is that there was none, or that the question failed.

* `step_ended` — an address is shown, or that there is none, from the moment at which the question for
  the text comes to an end.
* `run_status` — in every run, the status is about the text that is there: it is `checking` exactly as
  long as a question for it is going on, and then what was known of its name at that moment.
* `run_poisoned` — once a question for a name has failed and no other is on its way, the name is never
  resolved again.
-/
namespace SealedSky.Web.Compose

open Js

section
variable (lower : JsString → JsString)

/-! ## `ens.ts` -/

/-- `[a-z0-9-]`. -/
def isPlainUnit (u : UInt16) : Bool :=
  decide (97 ≤ u.toNat ∧ u.toNat ≤ 122 ∨ 48 ≤ u.toNat ∧ u.toNat ≤ 57 ∨ u = 45)

/-- `[a-z0-9_\-¡-￿]`, whatever the case. -/
def isWideUnit (u : UInt16) : Bool :=
  isPlainUnit u || decide (65 ≤ u.toNat ∧ u.toNat ≤ 90 ∨ u = 95 ∨ 0xA1 ≤ u.toNat)

/-- Two labels or more, with dots between them. -/
def isDotted (p : UInt16 → Bool) (s : JsString) : Bool :=
  decide (2 ≤ (s.splitOn 46).length) &&
    (s.splitOn 46).all fun label => !label.isEmpty && label.all p

/-- ens.ts:63. `lower` is `toLowerCase`. -/
def looksLikeEns (name : JsString) : Bool :=
  let s := lower (trim name)
  if s = [] then false
  else if s.contains 46 then isDotted isPlainUnit s || isDotted isWideUnit s
  else false

/-- The key of `forwardCache`, where `resolveEnsAddress` (ens.ts:34) gets so far. -/
def resolveKey (name : JsString) : Option JsString :=
  let trimmed := lower (trim name)
  if trimmed = [] ∨ looksLikeEns lower trimmed = false then none else some trimmed

/-! ## The effect -/

inductive RecipientStatus where
  | idle
  | checking
  | resolved (address : JsString)
  | unresolved

/-- The page: the effects are numbered, and the last one is the one that is not cancelled. `answers` is
no part of the page: what has come back for which key, the latest at the end. -/
structure Page where
  recipient : JsString
  status : RecipientStatus
  effect : ℕ
  timer : Bool
  forwardCache : Memo JsString (Option JsString) ℕ
  answers : List (JsString × Option JsString)

/-- `none` comes back for a name without an address, and from a question that fails. -/
inductive Action where
  | type (text : JsString)
  | fire
  | answer (i : ℕ) (address : Option JsString)
  | «sealed»

def init : Page := ⟨[], .idle, 0, false, .empty, []⟩

/-- The effect asks for the address of the text. -/
def isAsked (text : JsString) : Bool := !(trim text).isEmpty && looksLikeEns lower (trim text)

/-- A new text: the effect of the old one is cancelled. -/
def Page.enter (s : Page) (text : JsString) : Page :=
  { s with
    recipient := text
    status := if isAsked lower text then .checking else .idle
    effect := s.effect + 1
    timer := isAsked lower text }

/-- Compose.tsx:54. -/
def statusOf (address : Option JsString) : RecipientStatus :=
  match nonEmpty address with
  | some a => .resolved a
  | none => .unresolved

/-- `handleSeal` clears the field. The render between the commit of a text and its effect, in which the
status is still that of the old one, is left out: a new text and its effect are one step. -/
def Page.step (s : Page) : Action → Option Page
  | .type text => some (if text = s.recipient then s else s.enter lower text)
  | .fire =>
    if s.timer then
      match resolveKey lower (trim s.recipient) with
      | none => some { s with timer := false, status := statusOf none }
      | some key =>
        match s.forwardCache.table key with
        | some address => some { s with timer := false, status := statusOf address }
        | none => some { s with timer := false, forwardCache := s.forwardCache.ask key s.effect }
    else none
  | .answer i address => (s.forwardCache.answer i address).map fun q =>
    { s with
      forwardCache := q.2
      answers := s.answers ++ [(q.1.1, address)]
      status := if q.1.2 = s.effect then statusOf address else s.status }
  | .«sealed» => some (if s.recipient = [] then { s with status := .idle } else s.enter lower [])

def compose : Lts Page Action := ⟨init, Page.step lower⟩

/-- A question for the text is going on: its timer is, or it is on its way. -/
def Page.Looking (s : Page) : Prop :=
  s.timer = true ∨ ∃ q ∈ s.forwardCache.pending, q.2 = s.effect

/-- The latest of what has come back for a key. -/
def latest (answers : List (JsString × Option JsString)) (key : JsString) : Option (Option JsString) :=
  (answers.reverse.find? fun q => q.1 = key).map Prod.snd

/-- The status is what has come back latest for the name in the field; where the text is no name for
`ens.ts` after all, that there is nothing. -/
def Page.Found (s : Page) : Prop :=
  (resolveKey lower (trim s.recipient) = none ∧ s.status = statusOf none) ∨
    ∃ key address, resolveKey lower (trim s.recipient) = some key ∧
      latest s.answers key = some address ∧ s.status = statusOf address

/-- The same text and the same status, and no new effect. -/
structure Page.Same (s t : Page) : Prop where
  recipient : t.recipient = s.recipient
  effect : t.effect = s.effect
  status : t.status = s.status

/-- The question for the text of `s` has come to an end in `t`. -/
structure Page.Ends (s t : Page) : Prop where
  looking : s.Looking
  quiet : ¬ t.Looking
  recipient : t.recipient = s.recipient
  effect : t.effect = s.effect

/-- At some point of the run, which left the page at `m`, a question came to an end; nothing has changed
since. -/
def EndedAt (as : List Action) (m : Page) : Prop :=
  ∃ before a after m₀, as = before ++ a :: after ∧ (compose lower).run init before = some m₀ ∧
    m₀.step lower a = some m ∧ m₀.Ends m ∧
    ∀ cs, cs <+: after → ∃ s, (compose lower).run init (before ++ a :: cs) = some s ∧ m.Same s

/-! ## What a page keeps -/

structure Inv (s : Page) : Prop where
  older : ∀ q ∈ s.forwardCache.pending, q.2 ≤ s.effect
  distinct : (s.forwardCache.pending.map Prod.snd).Nodup
  waits : s.timer = true → ∀ q ∈ s.forwardCache.pending, q.2 ≠ s.effect
  mine : ∀ q ∈ s.forwardCache.pending, q.2 = s.effect →
    resolveKey lower (trim s.recipient) = some q.1
  known : ∀ key, s.forwardCache.table key = latest s.answers key
  checking : s.status = .checking ↔ s.Looking
  idle : s.status = .idle ↔ isAsked lower s.recipient = false

end

section
variable {lower : JsString → JsString} {s t : Page}

theorem statusOf_cases (address : Option JsString) :
    (∃ a, statusOf address = .resolved a ∧ nonEmpty address = some a) ∨
      statusOf address = .unresolved ∧ nonEmpty address = none := by
  unfold statusOf
  cases h : nonEmpty address with
  | none => exact Or.inr ⟨rfl, rfl⟩
  | some a => exact Or.inl ⟨a, rfl, rfl⟩

theorem statusOf_ne (address : Option JsString) :
    statusOf address ≠ .checking ∧ statusOf address ≠ .idle := by
  rcases statusOf_cases address with ⟨a, h, -⟩ | ⟨h, -⟩ <;> rw [h] <;> simp

theorem isAsked_of_looking (h : Inv lower s) (hlook : s.Looking) : isAsked lower s.recipient = true := by
  have hstatus := h.checking.2 hlook
  rw [← Bool.not_eq_false, ← h.idle, hstatus]
  simp

theorem inv_init : Inv lower init := by
  refine ⟨?_, List.nodup_nil, ?_, ?_, fun key => rfl, ?_, ?_⟩
  · rintro q ⟨⟩
  · rintro - q ⟨⟩
  · rintro q ⟨⟩
  · simp [init, Page.Looking, Memo.empty]
  · simp [init, isAsked, trim]

/-- A new text begins anew. -/
theorem Inv.enter (h : Inv lower s) (text : JsString) : Inv lower (s.enter lower text) := by
  have hlive : ∀ q ∈ s.forwardCache.pending, q.2 ≠ s.effect + 1 := by
    intro q hq
    have := h.older q hq
    omega
  refine ⟨fun q hq => (h.older q hq).trans (Nat.le_succ _), h.distinct, fun _ => hlive,
    fun q hq heq => absurd heq (hlive q hq), h.known, ?_, ?_⟩
  · by_cases hasked : isAsked lower text = true
    · simp [Page.enter, Page.Looking, hasked]
    · simp only [Page.enter, Page.Looking, hasked]
      simp only [Bool.false_eq_true, if_false, false_or, reduceCtorEq, false_iff]
      rintro ⟨q, hq, heq⟩
      exact hlive q hq heq
  · by_cases hasked : isAsked lower text = true
    · simp [Page.enter, hasked]
    · simp [Page.enter, hasked]

/-- Nothing is shown for a new text. -/
theorem enter_quiet (text : JsString) :
    (s.enter lower text).status = .checking ∨ (s.enter lower text).status = .idle := by
  by_cases hasked : isAsked lower text = true
  · simp [Page.enter, hasked]
  · simp [Page.enter, hasked]

theorem latest_concat (answers : List (JsString × Option JsString)) (key : JsString)
    (address : Option JsString) (k : JsString) :
    latest (answers ++ [(key, address)]) k =
      Function.update (latest answers) key (some address) k := by
  rw [latest, List.reverse_append, List.reverse_singleton, List.singleton_append]
  by_cases hk : k = key
  · subst hk
    simp
  · rw [List.find?_cons_of_neg (by simpa using Ne.symm hk), Function.update_of_ne hk, latest]

/-- The question for the text that is there comes to an end. -/
theorem Inv.shows (h : Inv lower s) (hlook : s.Looking) (address : Option JsString)
    (hrecipient : t.recipient = s.recipient) (heffect : t.effect = s.effect)
    (htimer : t.timer = false)
    (hpending : ∀ q ∈ t.forwardCache.pending, q ∈ s.forwardCache.pending ∧ q.2 ≠ s.effect)
    (hdistinct : (t.forwardCache.pending.map Prod.snd).Nodup)
    (hknown : ∀ key, t.forwardCache.table key = latest t.answers key)
    (hstatus : t.status = statusOf address) : Inv lower t := by
  have hasked := isAsked_of_looking h hlook
  have hne := statusOf_ne address
  refine ⟨fun q hq => heffect ▸ h.older q (hpending q hq).1, hdistinct, ?_,
    fun q hq heq => absurd (heq.trans heffect) (hpending q hq).2, hknown, ?_, ?_⟩
  · intro htrue
    rw [htimer] at htrue
    cases htrue
  · rw [hstatus]
    refine iff_of_false hne.1 ?_
    rintro (htrue | ⟨q, hq, heq⟩)
    · rw [htimer] at htrue
      cases htrue
    · exact (hpending q hq).2 (heq.trans heffect)
  · rw [hstatus, hrecipient, hasked]
    exact iff_of_false hne.2 (by simp)

/-- What a timer does: it finds no name, or the table has the name, or it asks. -/
theorem fire_cases (hstep : s.step lower .fire = some t) : s.timer = true ∧
    ((resolveKey lower (trim s.recipient) = none ∧
        t = { s with timer := false, status := statusOf none }) ∨
      ∃ key, resolveKey lower (trim s.recipient) = some key ∧
        ((∃ address, s.forwardCache.table key = some address ∧
            t = { s with timer := false, status := statusOf address }) ∨
          s.forwardCache.table key = none ∧
            t = { s with timer := false, forwardCache := s.forwardCache.ask key s.effect })) := by
  unfold Page.step at hstep
  by_cases htimer : s.timer = true
  · refine ⟨htimer, ?_⟩
    simp only [htimer, if_true] at hstep
    cases hkey : resolveKey lower (trim s.recipient) with
    | none =>
      rw [hkey] at hstep
      cases hstep
      exact Or.inl ⟨rfl, rfl⟩
    | some key =>
      rw [hkey] at hstep
      cases htable : s.forwardCache.table key with
      | some address =>
        simp only [htable] at hstep
        cases hstep
        exact Or.inr ⟨key, rfl, Or.inl ⟨address, htable, rfl⟩⟩
      | none =>
        simp only [htable] at hstep
        cases hstep
        exact Or.inr ⟨key, rfl, Or.inr ⟨htable, rfl⟩⟩
  · rw [eq_false_of_ne_true htimer] at hstep
    cases hstep

theorem Inv.fire (h : Inv lower s) (hstep : s.step lower .fire = some t) : Inv lower t := by
  obtain ⟨htimer, hcases⟩ := fire_cases hstep
  have hlive := h.waits htimer
  rcases hcases with ⟨-, rfl⟩ | ⟨key, hkey, ⟨address, -, rfl⟩ | ⟨htable, rfl⟩⟩
  · exact h.shows (Or.inl htimer) none rfl rfl rfl (fun q hq => ⟨hq, hlive q hq⟩) h.distinct h.known rfl
  · exact h.shows (Or.inl htimer) address rfl rfl rfl (fun q hq => ⟨hq, hlive q hq⟩) h.distinct h.known
      rfl
  · -- the question is on its way instead
    have hstatus : s.status = .checking := h.checking.2 (Or.inl htimer)
    have hmem : ∀ {q}, q ∈ (s.forwardCache.ask key s.effect).pending ↔
        q ∈ s.forwardCache.pending ∨ q = (key, s.effect) := by
      intro q
      rw [Memo.mem_pending_ask, htable, eq_self_iff_true, true_and]
    refine ⟨fun q hq => ?_, ?_, fun hfalse => absurd hfalse (by simp), fun q hq heq => ?_, fun k => ?_,
      iff_of_true hstatus (Or.inr ⟨_, hmem.2 (Or.inr rfl), rfl⟩), h.idle⟩
    · rcases hmem.1 hq with hold | rfl
      · exact h.older q hold
      · exact le_refl _
    · have hpending := Memo.pending_ask htable s.effect
      rw [hpending, List.map_append]
      refine List.Nodup.append h.distinct (List.nodup_singleton _) fun e he he' => ?_
      obtain ⟨q, hq, rfl⟩ := List.mem_map.1 he
      exact hlive q hq (List.mem_singleton.1 he')
    · rcases hmem.1 hq with hold | rfl
      · exact absurd heq (hlive q hold)
      · exact hkey
    · rw [Memo.table_ask]
      exact h.known k

/-- What comes back is the latest for its key. -/
theorem Inv.latest_answer (h : Inv lower s) {i : ℕ} {address : Option JsString} {q : JsString × ℕ}
    {cache : Memo JsString (Option JsString) ℕ}
    (hanswer : s.forwardCache.answer i address = some (q, cache)) (key : JsString) :
    cache.table key = latest (s.answers ++ [(q.1, address)]) key := by
  have hknown : s.forwardCache.table = latest s.answers := funext h.known
  rw [Memo.table_answer hanswer, latest_concat, hknown]

/-- What comes back is shown to the effect that has asked, and kept for all. -/
theorem Inv.answer (h : Inv lower s) {i : ℕ} {address : Option JsString}
    (hstep : s.step lower (.answer i address) = some t) : Inv lower t := by
  obtain ⟨⟨q, cache⟩, hanswer, rfl⟩ := Option.map_eq_some_iff.1 hstep
  have hmem := Memo.mem_of_answer hanswer
  obtain ⟨hdistinct, hothers⟩ := Memo.distinct_answer h.distinct hanswer
  have hold : ∀ q' ∈ cache.pending, q' ∈ s.forwardCache.pending :=
    fun q' hq' => Memo.mem_pending_answer hanswer hq'
  have hknown := h.latest_answer hanswer
  by_cases hlive : q.2 = s.effect
  · refine h.shows (Or.inr ⟨q, hmem, hlive⟩) address rfl rfl ?_
      (fun q' hq' => ⟨hold q' hq', hlive ▸ hothers q' hq'⟩) hdistinct hknown (if_pos hlive)
    exact eq_false_of_ne_true fun htimer => h.waits htimer q hmem hlive
  · have hstatus : (if q.2 = s.effect then statusOf address else s.status) = s.status := if_neg hlive
    simp only [hstatus]
    refine ⟨fun q' hq' => h.older q' (hold q' hq'), hdistinct,
      fun htimer q' hq' => h.waits htimer q' (hold q' hq'),
      fun q' hq' heq => h.mine q' (hold q' hq') heq, hknown, h.checking.trans ?_, h.idle⟩
    refine or_congr Iff.rfl ⟨?_, ?_⟩
    · rintro ⟨q', hq', heq⟩
      refine ⟨q', Memo.mem_pending_of_ne hanswer hq' ?_, heq⟩
      rintro rfl
      exact hlive heq
    · rintro ⟨q', hq', heq⟩
      exact ⟨q', hold q' hq', heq⟩

theorem step_inv {a : Action} (h : Inv lower s) (hstep : s.step lower a = some t) : Inv lower t := by
  cases a with
  | type text =>
    rw [Page.step, Option.some.injEq] at hstep
    subst hstep
    by_cases hsame : text = s.recipient
    · rwa [if_pos hsame]
    · rw [if_neg hsame]
      exact h.enter text
  | fire => exact h.fire hstep
  | answer i address => exact h.answer hstep
  | «sealed» =>
    rw [Page.step, Option.some.injEq] at hstep
    subst hstep
    by_cases hempty : s.recipient = []
    · rw [if_pos hempty]
      have hidle : s.status = .idle := by
        rw [h.idle, hempty]
        rfl
      rwa [← hidle]
    · rw [if_neg hempty]
      exact h.enter []

/-- **What is shown begins with the end of a question** for the text that is there. -/
theorem step_ended {a : Action} (h : Inv lower s) (hstep : s.step lower a = some t)
    (hchecking : t.status ≠ .checking) (hidle : t.status ≠ .idle) :
    s.Same t ∨ s.Ends t ∧ t.Found lower := by
  have hquiet : ¬ t.Looking := fun hlook => hchecking ((step_inv h hstep).checking.2 hlook)
  have hentered : ∀ {text}, t = s.enter lower text → False := by
    rintro text rfl
    rcases enter_quiet text with hst | hst
    · exact hchecking hst
    · exact hidle hst
  cases a with
  | type text =>
    rw [Page.step, Option.some.injEq] at hstep
    by_cases hsame : text = s.recipient
    · rw [if_pos hsame] at hstep
      subst hstep
      exact Or.inl ⟨rfl, rfl, rfl⟩
    · rw [if_neg hsame] at hstep
      exact (hentered hstep.symm).elim
  | fire =>
    obtain ⟨htimer, hcases⟩ := fire_cases hstep
    rcases hcases with ⟨hkey, rfl⟩ | ⟨key, hkey, ⟨address, htable, rfl⟩ | ⟨-, rfl⟩⟩
    · exact Or.inr ⟨⟨Or.inl htimer, hquiet, rfl, rfl⟩, Or.inl ⟨hkey, rfl⟩⟩
    · exact Or.inr ⟨⟨Or.inl htimer, hquiet, rfl, rfl⟩,
        Or.inr ⟨key, address, hkey, h.known key ▸ htable, rfl⟩⟩
    · exact absurd (h.checking.2 (Or.inl htimer)) hchecking
  | answer i address =>
    obtain ⟨⟨q, cache⟩, hanswer, rfl⟩ := Option.map_eq_some_iff.1 hstep
    by_cases hlive : q.2 = s.effect
    · have hmem := Memo.mem_of_answer hanswer
      refine Or.inr ⟨⟨Or.inr ⟨q, hmem, hlive⟩, hquiet, rfl, rfl⟩,
        Or.inr ⟨q.1, address, h.mine q hmem hlive, ?_, if_pos hlive⟩⟩
      show latest (s.answers ++ [(q.1, address)]) q.1 = some address
      rw [latest_concat, Function.update_self]
    · exact Or.inl ⟨rfl, rfl, if_neg hlive⟩
  | «sealed» =>
    rw [Page.step, Option.some.injEq] at hstep
    by_cases hempty : s.recipient = []
    · rw [if_pos hempty] at hstep
      subst hstep
      exact absurd rfl hidle
    · rw [if_neg hempty] at hstep
      exact (hentered hstep.symm).elim

theorem Page.Same.trans {m : Page} (h : m.Same s) (h' : s.Same t) : m.Same t :=
  ⟨h'.recipient.trans h.recipient, h'.effect.trans h.effect, h'.status.trans h.status⟩

theorem EndedAt.concat {as : List Action} {a : Action} {m : Page} (h : EndedAt lower as m)
    (hrun : (compose lower).run init (as ++ [a]) = some t) (hsame : m.Same t) :
    EndedAt lower (as ++ [a]) m := by
  obtain ⟨before, b, after, m₀, rfl, hm₀, hstep, hends, hkept⟩ := h
  have hassoc : (before ++ b :: after) ++ [a] = before ++ b :: (after ++ [a]) := by simp
  rw [hassoc] at hrun ⊢
  refine ⟨before, b, after ++ [a], m₀, rfl, hm₀, hstep, hends, fun cs hcs => ?_⟩
  rcases List.prefix_concat_iff.1 hcs with rfl | hcs
  · exact ⟨t, hrun, hsame⟩
  · exact hkept cs hcs

/-- **In every run the status is about the text that is there**: it is `checking` exactly as long as a
question for the text is going on, and from the moment at which that has come to an end it is what had
come back latest for the name by then. -/
theorem run_status {as : List Action} (hrun : (compose lower).run init as = some s) :
    (s.status = .checking ↔ s.Looking) ∧
      (s.status = .idle ↔ isAsked lower s.recipient = false) ∧
      (s.status ≠ .checking → s.status ≠ .idle →
        ∃ m, EndedAt lower as m ∧ m.Same s ∧ m.Found lower) := by
  have hall : Inv lower s ∧ (s.status ≠ .checking → s.status ≠ .idle →
      ∃ m, EndedAt lower as m ∧ m.Same s ∧ m.Found lower) := by
    refine Lts.run_inv_history (P := fun as s => Inv lower s ∧ (s.status ≠ .checking →
      s.status ≠ .idle → ∃ m, EndedAt lower as m ∧ m.Same s ∧ m.Found lower)) ?_ ?_ hrun
    · exact ⟨inv_init, fun _ hidle => absurd rfl hidle⟩
    · rintro as s a t hs ⟨hinv, hshown⟩ hstep
      have ht : (compose lower).run init (as ++ [a]) = some t := Lts.run_concat _ hs hstep
      refine ⟨step_inv hinv hstep, fun hchecking hidle => ?_⟩
      rcases step_ended hinv hstep hchecking hidle with hsame | ⟨hends, hfound⟩
      · rw [hsame.status] at hchecking hidle
        obtain ⟨m, hended, hm, hfound⟩ := hshown hchecking hidle
        exact ⟨m, hended.concat ht (hm.trans hsame), hm.trans hsame, hfound⟩
      · refine ⟨t, ⟨as, a, [], s, rfl, hs, hstep, hends, fun cs hcs => ?_⟩, ⟨rfl, rfl, rfl⟩, hfound⟩
        rw [List.prefix_nil.1 hcs]
        exact ⟨t, ht, rfl, rfl, rfl⟩
  exact ⟨hall.1.checking, hall.1.idle, hall.2⟩

/-- A name is typed, and an answer comes back for it. -/
def asking (address : Option JsString) : List Action :=
  [.type (js "vlad3d.eth"), .fire, .answer 0 address]

theorem run_asking (address : Option JsString) : ∃ cache : Memo JsString (Option JsString) ℕ,
    (compose id).run init (asking address) = some
      ⟨js "vlad3d.eth", statusOf address, 1, false, cache, [(js "vlad3d.eth", address)]⟩ ∧
      cache.Settled (js "vlad3d.eth") address := by
  have hasked : isAsked id (js "vlad3d.eth") = true := by decide
  have hkey : resolveKey id (trim (js "vlad3d.eth")) = some (js "vlad3d.eth") := by decide
  have hne : js "vlad3d.eth" ≠ [] := by decide
  refine ⟨⟨Function.update (fun _ => none) (js "vlad3d.eth") (some address), []⟩, ?_,
    by simp [Memo.Settled]⟩
  simp [asking, Lts.run, compose, Page.step, Page.enter, hasked, hkey, hne, init, Memo.empty,
    Memo.ask, Memo.answer]

/-- The name is typed again while the first question for it is on its way, and the second one finds
nothing after the first one has found an address. -/
def askingTwice : List Action :=
  [.type (js "vlad3d.eth"), .fire, .type (js "b"), .type (js "vlad3d.eth"), .fire,
    .answer 0 (some (js "0x01")), .answer 0 none]

theorem run_status_twice : ∃ s, (compose id).run init askingTwice = some s ∧
    s.status = .unresolved ∧ (js "vlad3d.eth", some (js "0x01")) ∈ s.answers ∧
    ∃ m, EndedAt id askingTwice m ∧ m.Same s ∧ m.Found id := by
  have hasked : isAsked id (js "vlad3d.eth") = true := by decide
  have hother : isAsked id (js "b") = false := by decide
  have hkey : resolveKey id (trim (js "vlad3d.eth")) = some (js "vlad3d.eth") := by decide
  have hne : js "vlad3d.eth" ≠ [] := by decide
  have hb : js "b" ≠ js "vlad3d.eth" := by decide
  have hrun : ∃ cache : Memo JsString (Option JsString) ℕ,
      (compose id).run init askingTwice = some ⟨js "vlad3d.eth", .unresolved, 3, false, cache,
        [(js "vlad3d.eth", some (js "0x01")), (js "vlad3d.eth", none)]⟩ := by
    refine ⟨⟨Function.update (Function.update (fun _ => none) (js "vlad3d.eth") (some (some (js "0x01"))))
      (js "vlad3d.eth") (some none), []⟩, ?_⟩
    simp [askingTwice, Lts.run, compose, Page.step, Page.enter, hasked, hother, hkey, hne, hb, hb.symm,
      init, Memo.empty, Memo.ask, Memo.answer, statusOf, nonEmpty]
  obtain ⟨cache, hrun⟩ := hrun
  exact ⟨_, hrun, rfl, List.mem_cons_self,
    (run_status hrun).2.2 (fun h => by cases h) (fun h => by cases h)⟩

/-! ## A name that is lost -/

/-- Nothing is known for a key but that there is no address, and the page does not show one for it. -/
structure Lost (lower : JsString → JsString) (key : JsString) (s : Page) : Prop where
  inv : Inv lower s
  settled : ∃ address, s.forwardCache.Settled key address ∧ nonEmpty address = none
  hidden : resolveKey lower (trim s.recipient) = some key → ∀ a, s.status ≠ .resolved a

theorem enter_hidden {text : JsString} (a : JsString) :
    (s.enter lower text).status ≠ .resolved a := by
  have hquiet : (s.enter lower text).status = .checking ∨ (s.enter lower text).status = .idle :=
    enter_quiet text
  rcases hquiet with h | h <;> rw [h] <;> simp

theorem step_lost {key : JsString} {a : Action} (h : Lost lower key s)
    (hstep : s.step lower a = some t) : Lost lower key t := by
  obtain ⟨address, hsettled, hnone⟩ := h.settled
  have hinv := step_inv h.inv hstep
  cases a with
  | type text =>
    rw [Page.step, Option.some.injEq] at hstep
    subst hstep
    by_cases hsame : text = s.recipient
    · rwa [if_pos hsame]
    · rw [if_neg hsame] at hinv ⊢
      exact ⟨hinv, ⟨address, hsettled, hnone⟩, fun _ => enter_hidden⟩
  | fire =>
    obtain ⟨-, hcases⟩ := fire_cases hstep
    rcases hcases with ⟨hkey, rfl⟩ | ⟨key', hkey, ⟨address', htable, rfl⟩ | ⟨-, rfl⟩⟩
    · refine ⟨hinv, ⟨address, hsettled, hnone⟩, fun hkey' => ?_⟩
      rw [hkey] at hkey'
      cases hkey'
    · refine ⟨hinv, ⟨address, hsettled, hnone⟩, fun hsame a ha => ?_⟩
      rw [hkey] at hsame
      cases hsame
      rw [hsettled.1] at htable
      cases htable
      have ha : statusOf address = .resolved a := ha
      rw [statusOf, hnone] at ha
      cases ha
    · exact ⟨hinv, ⟨address, hsettled.ask key' s.effect, hnone⟩, h.hidden⟩
  | answer i address' =>
    obtain ⟨⟨q, cache⟩, hanswer, rfl⟩ := Option.map_eq_some_iff.1 hstep
    refine ⟨hinv, ⟨address, hsettled.answer hanswer, hnone⟩, fun hkey a ha => ?_⟩
    by_cases hlive : q.2 = s.effect
    · -- what comes back for the text is for another key
      have hmem := Memo.mem_of_answer hanswer
      have hmine := h.inv.mine q hmem hlive
      have hkey : resolveKey lower (trim s.recipient) = some key := hkey
      rw [hkey] at hmine
      exact hsettled.2 q hmem (Option.some.inj hmine).symm
    · have ha : (if q.2 = s.effect then statusOf address' else s.status) = .resolved a := ha
      rw [if_neg hlive] at ha
      exact h.hidden hkey a ha
  | «sealed» =>
    rw [Page.step, Option.some.injEq] at hstep
    subst hstep
    by_cases hempty : s.recipient = []
    · rw [if_pos hempty] at hinv ⊢
      exact ⟨hinv, ⟨address, hsettled, hnone⟩, fun _ a ha => by cases ha⟩
    · rw [if_neg hempty] at hinv ⊢
      exact ⟨hinv, ⟨address, hsettled, hnone⟩, fun _ => enter_hidden⟩

/-- **A failed question is for good**: where it is known of a name that it has no address, no other
question for it is on its way and none of its addresses is shown, none is ever shown on this page. -/
theorem run_poisoned {as bs : List Action} {key : JsString} {address : Option JsString}
    (hrun : (compose lower).run init as = some s)
    (hknown : s.forwardCache.table key = some address) (hfailed : nonEmpty address = none)
    (hquiet : ∀ q ∈ s.forwardCache.pending, q.1 ≠ key)
    (hhidden : resolveKey lower (trim s.recipient) = some key → ∀ a, s.status ≠ .resolved a)
    (hlater : (compose lower).run s bs = some t)
    (hkey : resolveKey lower (trim t.recipient) = some key) : ∀ a, t.status ≠ .resolved a := by
  have hinv : Inv lower s := Lts.run_inv (P := Inv lower) (fun _ _ _ h hstep => step_inv h hstep)
    inv_init hrun
  have hlost : Lost lower key s := ⟨hinv, ⟨address, ⟨hknown, hquiet⟩, hfailed⟩, hhidden⟩
  exact (Lts.run_inv (P := Lost lower key) (fun _ _ _ h hstep => step_lost h hstep) hlost
    hlater).hidden hkey

/-- The name is typed again after another. -/
theorem run_poisoned_vlad : ∃ as bs s t, (compose id).run init as = some s ∧
    (compose id).run s bs = some t ∧ t.recipient = js "vlad3d.eth" ∧
    ∀ a, t.status ≠ .resolved a := by
  obtain ⟨cache, hrun, hsettled⟩ := run_asking none
  have hasked : isAsked id (js "vlad3d.eth") = true := by decide
  have hother : isAsked id (js "b") = false := by decide
  have hkey : resolveKey id (trim (js "vlad3d.eth")) = some (js "vlad3d.eth") := by decide
  have hne : js "b" ≠ js "vlad3d.eth" := by decide
  have hlater : (compose id).run
      ⟨js "vlad3d.eth", statusOf none, 1, false, cache, [(js "vlad3d.eth", none)]⟩
      [.type (js "b"), .type (js "vlad3d.eth"), .fire] = some
        ⟨js "vlad3d.eth", statusOf none, 3, false, cache, [(js "vlad3d.eth", none)]⟩ := by
    simp [Lts.run, compose, Page.step, Page.enter, hasked, hother, hkey, hne, hne.symm, hsettled.1]
  exact ⟨_, _, _, _, hrun, hlater, rfl, run_poisoned hrun hsettled.1 rfl hsettled.2
    (fun _ a ha => by cases ha) hlater hkey⟩

end

end SealedSky.Web.Compose
