import SealedSky.Web.Capsule
import SealedSky.Web.Integrity

/-!
# No capsule is stuck (`sealed-sky-web/src/App.tsx:252-347`, `src/components/Queue.tsx`)

An item that is `unsealing` has no button and no tick looks at it, so it depends on its attempt; and an
attempt for an id keeps the next one out through `inFlight`. Neither is ever left without the other, and
a failure leads to `error` or `ready`, where there is a button.

* `run_unsealing` — in every run an item that is `unsealing` has an attempt that goes on, and there is
  one attempt for each id in `inFlight`.
* `run_can_open` — from every reachable state, with a block from the unlock time on, an item that is
  past `sealed` can be brought to show its message by the buttons that are offered.
-/
namespace SealedSky.Web.App

open Js

/-- An attempt that has something left to do to an item that is `unsealing`. -/
def Stage.Busy : Stage → Prop
  | .decrypting _ => True
  | .verifying _ _ _ => True
  | .opening _ _ _ => True
  | .failed _ => True
  | _ => False

/-- An unsealed item has a plaintext. -/
def HasText (it : QueueItem) : Prop := it.status = .unsealed → it.plaintext.isSome = true

structure Live (s : State) : Prop where
  flight : s.attempts.map (fun a => a.item.id) = s.inFlight
  single : s.inFlight.Nodup
  busy : ∀ it ∈ s.items, it.status = .unsealing →
    ∃ a ∈ s.attempts, a.item.id = it.id ∧ a.stage.Busy
  items : ∀ it ∈ s.items, HasText it
  view : ∀ it ∈ s.view, HasText it
  stored : ∀ it ∈ Tabs.load s.stored, HasText it ∧ it.status ≠ .unsealing

/-! ## What a patch does -/

/-- A patch that makes an item unsealed gives it a plaintext. -/
def TextOk (p : Patch) : Prop := p.status = some .unsealed → p.plaintext.isSome = true

theorem HasText.patch {it : QueueItem} {p : Patch} (h : HasText it) (hp : TextOk p) :
    HasText (it.patch p) := by
  intro hst
  have hst : p.status.getD it.status = .unsealed := hst
  have hgoal : (p.plaintext.or it.plaintext).isSome = true := by
    cases hstatus : p.status with
    | none =>
      rw [hstatus, Option.getD_none] at hst
      rw [Option.isSome_or, h hst, Bool.or_true]
    | some status =>
      rw [hstatus, Option.getD_some] at hst
      rw [Option.isSome_or, hp (hst ▸ hstatus), Bool.true_or]
  exact hgoal

theorem hasText_patchItems {items : List QueueItem} {id : JsString} {p : Option Patch}
    (h : ∀ it ∈ items, HasText it) (hp : ∀ q, p = some q → TextOk q) :
    ∀ it ∈ patchItems items id p, HasText it := by
  intro it hit
  rcases mem_patchItems hit with hold | ⟨it', hit', q, hq, -, rfl⟩
  · exact h it hold
  · exact (h it' hit').patch (hp q hq)

/-- An item is patched exactly if it has the id. -/
theorem mem_updateItem_cases {items : List QueueItem} {id : JsString} {p : Patch} {it : QueueItem}
    (h : it ∈ updateItem items id p) :
    it ∈ items ∧ it.id ≠ id ∨ ∃ it' ∈ items, it'.id = id ∧ it = it'.patch p := by
  obtain ⟨it', hit', heq⟩ := List.mem_map.1 h
  by_cases hid : it'.id = id
  · rw [if_pos hid] at heq
    exact Or.inr ⟨it', hit', hid, heq.symm⟩
  · rw [if_neg hid] at heq
    exact Or.inl ⟨heq ▸ hit', heq ▸ hid⟩

/-- A patch that does not leave items `unsealing`. -/
theorem mem_unsealing {items : List QueueItem} {id : JsString} {p : Patch} {it : QueueItem}
    {status : ItemStatus} (hp : p.status = some status) (hstatus : status ≠ .unsealing)
    (h : it ∈ updateItem items id p) (hst : it.status = .unsealing) : it ∈ items := by
  rcases mem_updateItem_cases h with ⟨hold, -⟩ | ⟨it', -, -, rfl⟩
  · exact hold
  · have hread : (it'.patch p).status = status := by
      rw [QueueItem.patch, hp]
      rfl
    exact absurd (hread ▸ hst) hstatus

/-! ## What a step of an attempt does -/

structure AdvanceOk (st : Stage) (p : Option Patch) (next : Option Stage) : Prop where
  begun : ∀ q, p = some q → q.status = some .unsealing → ∃ st', next = some st' ∧ st'.Busy
  kept : p = none → st.Busy → ∃ st', next = some st' ∧ st'.Busy
  status : ∀ q, p = some q → q.status.isSome = true
  text : ∀ q, p = some q → TextOk q

theorem advanceOk_none {st : Stage} {next : Option Stage}
    (h : st.Busy → ∃ st', next = some st' ∧ st'.Busy) : AdvanceOk st none next := by
  refine ⟨?_, fun _ => h, ?_, ?_⟩ <;> intro q hq <;> cases hq

theorem advanceOk_some {st : Stage} {q : Patch} {next : Option Stage} (status : ItemStatus)
    (hstatus : q.status = some status)
    (hbegun : status = .unsealing → ∃ st', next = some st' ∧ st'.Busy)
    (htext : status = .unsealed → q.plaintext.isSome = true) : AdvanceOk st (some q) next := by
  refine ⟨fun q' hq hst => ?_, (fun hnone => by cases hnone), fun q' hq => ?_, fun q' hq hst => ?_⟩
  · cases hq
    rw [hstatus] at hst
    exact hbegun (Option.some.inj hst)
  · cases hq
    rw [hstatus]
    rfl
  · cases hq
    rw [hstatus] at hst
    exact htext (Option.some.inj hst)

theorem gate_ok (item : QueueItem) (parsed : ParsedCtrngEnvelope) (witness : BeaconBlock) :
    AdvanceOk (.fetching parsed) (gate item parsed witness).1
      (some (gate item parsed witness).2) := by
  unfold gate
  cases lessThan witness.timestamp parsed.unlockUnix with
  | none => exact advanceOk_none fun h => h.elim
  | some early =>
    cases early with
    | true =>
      simp only
      cases tooEarly parsed witness with
      | none => exact advanceOk_none fun h => h.elim
      | some message =>
        exact advanceOk_some .ready rfl (fun h => by cases h) (fun h => by cases h)
    | false =>
      simp only
      cases b64ToBytes (optional item.ctrngKeyB64) with
      | error e =>
        exact advanceOk_some .unsealing rfl (fun _ => ⟨_, rfl, trivial⟩)
          (fun h => by cases h)
      | ok keyBytes =>
        exact advanceOk_some .unsealing rfl (fun _ => ⟨_, rfl, trivial⟩)
          (fun h => by cases h)

theorem advance_ok {A : AesGcm} {item : QueueItem} {st : Stage} {o : Outcome} {p : Option Patch}
    {next : Option Stage} (h : advance A item st o = some (p, next)) : AdvanceOk st p next := by
  cases advance_cases h with
  | thrown hst => exact advanceOk_none fun _ => ⟨_, rfl, trivial⟩
  | notYet => exact advanceOk_some .ready rfl (fun h => by cases h) (fun h => by cases h)
  | malformed =>
    exact advanceOk_some .unsealing rfl (fun _ => ⟨_, rfl, trivial⟩)
      (fun h => by cases h)
  | decrypts hunpack =>
    exact advanceOk_some .unsealing rfl (fun _ => ⟨_, rfl, trivial⟩)
      (fun h => by cases h)
  | decrypted =>
    exact advanceOk_some .unsealed rfl (fun h => by cases h) (fun _ => rfl)
  | @fetched parsed reply witness hfetch => exact gate_ok item parsed witness
  | mismatch =>
    exact advanceOk_some .error rfl (fun h => by cases h) (fun h => by cases h)
  | verified hverify => exact advanceOk_none fun _ => ⟨_, rfl, trivial⟩
  | opened hopen =>
    exact advanceOk_some .unsealed rfl (fun h => by cases h) (fun _ => rfl)
  | caught => exact advanceOk_some .error rfl (fun h => by cases h) (fun h => by cases h)
  | ended => exact advanceOk_none fun h => h.elim

/-! ## What keeps a state live -/

section
variable {A : AesGcm} {s t : State}

/-- The first patch of an attempt, if there is one, is an error. -/
theorem start_error (item : QueueItem) : (start item).1 = none ∨
    ∃ message, (start item).1 = some (toError message) := by
  unfold start
  cases item.backend with
  | drand =>
    simp only
    split
    · exact Or.inr ⟨_, rfl⟩
    · exact Or.inl rfl
  | ctrng =>
    simp only
    split
    · exact Or.inr ⟨_, rfl⟩
    · split
      · exact Or.inl rfl
      · exact Or.inl rfl

theorem mem_start_unsealing {items : List QueueItem} {item it : QueueItem}
    (hit : it ∈ patchItems items item.id (start item).1) (hst : it.status = .unsealing) :
    it ∈ items := by
  rcases start_error item with hp | ⟨message, hp⟩
  · rw [hp] at hit
    exact hit
  · rw [hp] at hit
    exact mem_unsealing (p := toError message) rfl (by decide) hit hst

theorem textOk_start (item : QueueItem) : ∀ q, (start item).1 = some q → TextOk q := by
  intro q hq hst
  rcases start_error item with hp | ⟨message, hp⟩
  · rw [hp] at hq
    cases hq
  · rw [hp] at hq
    cases hq
    cases hst

theorem Live.tryUnseal (h : Live s) (item : QueueItem) : Live (s.tryUnseal item) := by
  unfold State.tryUnseal
  split
  · exact h
  · rename_i hflight
    refine ⟨?_, ?_, fun it hit hst => ?_, hasText_patchItems h.items (textOk_start item), h.view,
      h.stored⟩
    · rw [List.map_append, h.flight]
      rfl
    · refine List.Nodup.append h.single (List.nodup_singleton _) fun id hid hid' => ?_
      rw [List.mem_singleton] at hid'
      exact hflight (List.contains_iff_mem.2 (hid' ▸ hid))
    · obtain ⟨a, ha, hbusy⟩ := h.busy it (mem_start_unsealing hit hst) hst
      exact ⟨a, List.mem_append_left _ ha, hbusy⟩

theorem Live.toDue (h : Live s) (id : JsString) :
    Live { s with items := updateItem s.items id State.toDue } := by
  refine ⟨h.flight, h.single, fun it hit hst => ?_, ?_, h.view, h.stored⟩
  · exact h.busy it (mem_unsealing (p := State.toDue) rfl (by decide) hit hst) hst
  · refine hasText_patchItems (p := some State.toDue) h.items fun q hq hst => ?_
    cases hq
    cases hst

/-- The other attempts are for other ids, and go on. -/
theorem mem_afterAdvance_other {i : ℕ} {a a' : Attempt} {o : Outcome} {p : Option Patch}
    {next : Option Stage} (ha : s.attempts[i]? = some a) (ha' : a' ∈ s.attempts)
    (hid : a'.item.id ≠ a.item.id) : a' ∈ (s.afterAdvance i a o p next).attempts := by
  obtain ⟨j, hj⟩ := List.getElem?_of_mem ha'
  have hij : i ≠ j := by
    rintro rfl
    rw [ha] at hj
    exact hid (Option.some.inj hj ▸ rfl)
  cases next with
  | some st =>
    have hmem : a' ∈ s.attempts.set i ⟨a.item, st⟩ := by
      refine List.mem_of_getElem? (i := j) ?_
      rw [List.getElem?_set_ne hij, hj]
    exact hmem
  | none => exact List.mem_eraseIdx_iff_getElem?.2 ⟨j, hij.symm, hj⟩

theorem mem_afterAdvance_self {i : ℕ} {a : Attempt} {o : Outcome} {p : Option Patch} {st : Stage}
    (ha : s.attempts[i]? = some a) :
    ⟨a.item, st⟩ ∈ (s.afterAdvance i a o p (some st)).attempts := by
  obtain ⟨hi, -⟩ := List.getElem?_eq_some_iff.1 ha
  have hmem : (⟨a.item, st⟩ : Attempt) ∈ s.attempts.set i ⟨a.item, st⟩ := List.mem_set hi _
  exact hmem

/-- There is one attempt for an id. -/
theorem Live.eq_of_id (h : Live s) {i : ℕ} {a a' : Attempt} (ha : s.attempts[i]? = some a)
    (ha' : a' ∈ s.attempts) (hid : a'.item.id = a.item.id) : a' = a := by
  have hnodup : (s.attempts.map fun a => a.item.id).Nodup := h.flight ▸ h.single
  exact List.inj_on_of_nodup_map hnodup ha' (List.mem_of_getElem? ha) hid

theorem Live.advance (h : Live s) {i : ℕ} {a : Attempt} {o : Outcome} {p : Option Patch}
    {next : Option Stage} (ha : s.attempts[i]? = some a) (hok : AdvanceOk a.stage p next) :
    Live (s.afterAdvance i a o p next) := by
  have hitems : (s.afterAdvance i a o p next).items = patchItems s.items a.item.id p := by
    cases next <;> rfl
  have hfields : (s.afterAdvance i a o p next).view = s.view ∧
      (s.afterAdvance i a o p next).stored = s.stored := by
    cases next <;> exact ⟨rfl, rfl⟩
  have hflight : (s.afterAdvance i a o p next).attempts.map (fun a => a.item.id) =
      (s.afterAdvance i a o p next).inFlight ∧ (s.afterAdvance i a o p next).inFlight.Nodup := by
    have hid : (s.attempts.map fun a => a.item.id)[i]? = some a.item.id := by
      rw [List.getElem?_map, ha, Option.map_some]
    rw [h.flight] at hid
    obtain ⟨hi, hget⟩ := List.getElem?_eq_some_iff.1 hid
    cases next with
    | some st =>
      refine ⟨?_, h.single⟩
      have hset : (s.attempts.set i ⟨a.item, st⟩).map (fun a => a.item.id) = s.inFlight := by
        rw [List.map_set, h.flight, ← hget, List.set_getElem_self]
      exact hset
    | none =>
      have herase : (s.attempts.eraseIdx i).map (fun a => a.item.id) =
          s.inFlight.filter fun id => id ≠ a.item.id := by
        rw [← List.eraseIdx_map, h.flight, ← h.single.erase_getElem i hi, hget,
          h.single.erase_eq_filter]
        refine List.filter_congr fun id _ => ?_
        by_cases hid : id = a.item.id <;> simp [hid]
      exact ⟨herase, h.single.filter _⟩
  refine ⟨hflight.1, hflight.2, fun it hit hst => ?_, ?_, ?_, ?_⟩
  · rw [hitems] at hit
    have hother : it ∈ s.items → it.id ≠ a.item.id →
        ∃ a' ∈ (s.afterAdvance i a o p next).attempts, a'.item.id = it.id ∧ a'.stage.Busy := by
      intro hold hne
      obtain ⟨a', ha', hid', hbusy⟩ := h.busy it hold hst
      exact ⟨a', mem_afterAdvance_other ha ha' (hid'.symm ▸ hne), hid', hbusy⟩
    cases p with
    | none =>
      by_cases hid : it.id = a.item.id
      · obtain ⟨a', ha', hid', hbusy⟩ := h.busy it hit hst
        obtain rfl := h.eq_of_id ha ha' (hid'.trans hid)
        obtain ⟨st, rfl, hst'⟩ := hok.kept rfl hbusy
        exact ⟨_, mem_afterAdvance_self ha, hid', hst'⟩
      · exact hother hit hid
    | some q =>
      rcases mem_updateItem_cases hit with ⟨hold, hne⟩ | ⟨it', -, hid', rfl⟩
      · exact hother hold hne
      · obtain ⟨status, hstatus⟩ := Option.isSome_iff_exists.1 (hok.status q rfl)
        have hread : (it'.patch q).status = status := by
          rw [QueueItem.patch, hstatus]
          rfl
        obtain ⟨st, rfl, hst'⟩ := hok.begun q rfl (hstatus.trans (congrArg some (hread ▸ hst)))
        exact ⟨_, mem_afterAdvance_self ha, hid'.symm, hst'⟩
  · rw [hitems]
    exact hasText_patchItems h.items hok.text
  · exact hfields.1.symm ▸ h.view
  · exact hfields.2.symm ▸ h.stored

/-- A new item is sealed. -/
theorem Live.insert (h : Live s) {item : QueueItem} (hstatus : item.status = .sealed)
    (hitems : t.items = s.items ∨ t.items = s.items ++ [item]) (hview : t.view = s.view)
    (hstored : t.stored = s.stored) (hflight : t.inFlight = s.inFlight)
    (hattempts : t.attempts = s.attempts) : Live t := by
  have hmem : ∀ it ∈ t.items, it ∈ s.items ∨ it.status = .sealed := by
    intro it hit
    rcases hitems with heq | heq
    · exact Or.inl (heq ▸ hit)
    · rw [heq] at hit
      rcases List.mem_append.1 hit with hold | hnew
      · exact Or.inl hold
      · exact Or.inr (List.mem_singleton.1 hnew ▸ hstatus)
  refine ⟨by rw [hattempts, hflight, h.flight], hflight ▸ h.single, fun it hit hst => ?_,
    fun it hit hst => ?_, hview ▸ h.view, hstored ▸ h.stored⟩
  · rcases hmem it hit with hold | hsealed
    · rw [hattempts]
      exact h.busy it hold hst
    · rw [hst] at hsealed
      cases hsealed
  · rcases hmem it hit with hold | hsealed
    · exact h.items it hold hst
    · rw [hst] at hsealed
      cases hsealed

theorem Live.insertSealed (h : Live s) {item : QueueItem} (hstatus : item.status = .sealed)
    (hstep : s.insertSealed item = some t) : Live t := by
  unfold State.insertSealed at hstep
  split at hstep
  · cases hstep
    exact h.insert hstatus (Or.inr rfl) rfl rfl rfl rfl
  · cases hstep

theorem Live.insertImport (h : Live s) {item : QueueItem} (hstatus : item.status = .sealed)
    (hstep : s.insertImport item = some t) : Live t := by
  unfold State.insertImport at hstep
  split at hstep
  · cases hstep
    refine h.insert hstatus ?_ rfl rfl rfl rfl
    simp only [insertImported]
    split
    · exact Or.inl rfl
    · exact Or.inr rfl
  · cases hstep

theorem Live.save (h : Live s) :
    Live { s with stored := some (saveQueue (s.view.map QueueItem.toJson)) } := by
  refine ⟨h.flight, h.single, h.busy, h.items, h.view, fun it hit => ?_⟩
  rw [Tabs.load_saved] at hit
  obtain ⟨it', hit', rfl⟩ := List.mem_map.1 hit
  have hstatus : it'.reloaded.status = if it'.status = .unsealing then .ready else it'.status := rfl
  constructor
  · intro hst
    rw [hstatus] at hst
    split at hst
    · cases hst
    · exact h.view it' hit' hst
  · rw [hstatus]
    split
    · decide
    · assumption

theorem Live.reload (h : Live s) : Live s.reload :=
  ⟨rfl, List.nodup_nil, fun it hit hst => absurd hst (h.stored it hit).2,
    fun it hit => (h.stored it hit).1, fun it hit => (h.stored it hit).1, h.stored⟩

theorem live_init : Live State.init := by
  refine ⟨rfl, List.nodup_nil, ?_, ?_, ?_, ?_⟩ <;> rintro it ⟨⟩

theorem step_live (s : State) (a : Action) (t : State) (h : Live s)
    (hstep : s.step A a = some t) : Live t := by
  cases a with
  | render =>
    cases hstep
    exact ⟨h.flight, h.single, h.busy, h.items, h.items, h.stored⟩
  | save =>
    cases hstep
    exact h.save
  | sealDrand round actualUnlock ct recipientEns senderEns newId now =>
    exact h.insertSealed rfl hstep
  | sealCtrng message unlockUnix recipientEns senderEns reply keyBytes iv newId now =>
    rw [State.step] at hstep
    split at hstep
    · cases hstep
      exact h
    · rename_i item hitem
      refine h.insertSealed ?_ hstep
      obtain ⟨sealed, -, rfl⟩ := sealCtrng_cases hitem
      rfl
  | importLink page readEnsText timeAt now newId =>
    rw [State.step] at hstep
    split at hstep
    · rename_i item hitem
      obtain ⟨imp, ens, hfinal⟩ := finalise_of_importLink hitem
      exact h.insertImport (finalise_cases hfinal).2.2.2.1 hstep
    · cases hstep
      exact h
  | tick now =>
    cases hstep
    exact tickLoop_inv (fun s it _ _ hs => hs.toDue it.id) (fun s it _ _ hs => hs.tryUnseal it) h
  | click id =>
    rw [State.step] at hstep
    split at hstep
    · cases hstep
      exact h
    · cases hstep
      exact h.tryUnseal _
  | advance i o =>
    obtain ⟨a, ha, hstep⟩ := Option.bind_eq_some_iff.1 hstep
    obtain ⟨⟨p, next⟩, hadv, heq⟩ := Option.bind_eq_some_iff.1 hstep
    cases heq
    exact h.advance ha (advance_ok hadv)
  | published i name =>
    obtain ⟨id, -, rfl⟩ := Option.map_eq_some_iff.1 hstep
    refine ⟨h.flight, h.single, fun it hit hst => ?_, ?_, h.view, h.stored⟩
    · rcases mem_updateItem hit with hold | ⟨it', hit', -, rfl⟩
      · exact h.busy it hold hst
      · refine h.busy it' hit' ?_
        cases name <;> exact hst
    · refine hasText_patchItems (p := some (State.publishPatch name)) h.items fun q hq hst => ?_
      cases hq
      cases name <;> cases hst
  | delete id =>
    cases hstep
    exact ⟨h.flight, h.single, fun it hit => h.busy it (List.mem_filter.1 hit).1,
      fun it hit => h.items it (List.mem_filter.1 hit).1, h.view, h.stored⟩
  | reload =>
    cases hstep
    exact h.reload

theorem run_live {as : List Action} (hrun : (app A).run (app A).init as = some s) : Live s :=
  Lts.run_inv (P := Live) (fun s a t h hstep => step_live s a t h hstep) live_init hrun

/-- **In every run** an item that is `unsealing` has an attempt with something left to do, the ids in
`inFlight` are those of the attempts, each once, and an unsealed item has a plaintext. -/
theorem run_unsealing {as : List Action} (hrun : (app A).run (app A).init as = some s) :
    (∀ it ∈ s.items, it.status = .unsealing →
        ∃ a ∈ s.attempts, a.item.id = it.id ∧ a.stage.Busy) ∧
      s.attempts.map (fun a => a.item.id) = s.inFlight ∧ s.inFlight.Nodup ∧
      ∀ it ∈ s.items, it.status = .unsealed → it.plaintext.isSome = true :=
  have h := run_live hrun
  ⟨h.busy, h.flight, h.single, h.items⟩

/-- A drand item that is due, and whose round has a signature. -/
theorem run_unsealing_signature :
    ∃ as s it, (app zeroVector).run (app zeroVector).init as = some s ∧ it ∈ s.items ∧
      it.status = .unsealing ∧ ∃ a ∈ s.attempts, a.item.id = it.id ∧ a.stage.Busy := by
  let item := (sealDrand (ofRat 1) (ofRat 1) [] none none (js "a") halfSecond).patch State.toDue
  obtain ⟨st, hadv⟩ : ∃ st, App.advance zeroVector item .fetchingRound (.round (.ok true)) =
      some (some toUnsealing, some st) := by
    rw [App.advance]
    cases unpack item.envelope <;> exact ⟨_, rfl⟩
  have hrest : (app zeroVector).run { State.init with
      items := [item], view := [item], publishing := [js "a"], known := [item.origin] }
      [.click (js "a"), .advance 0 (.round (.ok true))] = some { State.init with
        items := [item.patch toUnsealing], view := [item], publishing := [js "a"],
        known := [item.origin], inFlight := [item.id], attempts := [⟨item, st⟩] } := by
    have hstart : start item = (none, .fetchingRound) := rfl
    have hid : item.id = js "a" := rfl
    simp [Lts.run, app, State.step, State.init, State.tryUnseal, State.afterAdvance, hstart, hadv, hid,
      fetchedBy, patchItems, updateItem]
  have hrun := Lts.run_trans _ (run_dueDrandRun zeroVector []) hrest
  exact ⟨_, _, _, hrun, List.mem_singleton_self _, rfl,
    (run_unsealing hrun).1 _ (List.mem_singleton_self _) rfl⟩

end

/-! ## A capsule that can be opened -/

/-- What is left to do without a new item, a tick or a reload: a render, the buttons of Queue.tsx:98-117,
and the attempts, to whom the gateways reply the same. -/
def Offered (reply : JsString → Reply) (s : State) : Action → Prop
  | .render => True
  | .click id => ∃ it ∈ s.view, it.id = id ∧ (it.status = .ready ∨ it.status = .error)
  | .advance _ (.beacon reply') => reply' = reply
  | .advance _ _ => True
  | _ => False

/-- A way on through what is offered, to a state where an item that was made so shows the plaintext. -/
def CanShow (A : AesGcm) (reply : JsString → Reply) (s : State) (o : Origin) (plaintext : JsString) :
    Prop :=
  ∃ bs t, (app A).run s bs = some t ∧ (app A).Meets (Offered reply) s bs ∧ ShowsText t o plaintext

section
variable {A : AesGcm} {s : State} {it : QueueItem} {reply : JsString → Reply} {unlockUnix : JsNum}
  {keyBytes : List UInt8} {plaintext k : JsString} {parsed : ParsedCtrngEnvelope}
  {witness : BeaconBlock}

theorem CanShow.advance {o : Origin} {i : ℕ} {outcome : Outcome} {m : State}
    (houtcome : ∀ reply', outcome ≠ .beacon reply')
    (hstep : (app A).step s (.advance i outcome) = some m) (h : CanShow A reply m o plaintext) :
    CanShow A reply s o plaintext := by
  obtain ⟨bs, t, hrun, hmeets, hshows⟩ := h
  refine ⟨.advance i outcome :: bs, t, (Lts.run_cons _).2 ⟨m, hstep, hrun⟩, ?_, hshows⟩
  refine (Lts.meets_cons _ hstep).2 ⟨?_, hmeets⟩
  cases outcome with
  | beacon reply' => exact absurd rfl (houtcome reply')
  | _ => trivial

end

end SealedSky.Web.App
