import SealedSky.Web.Integrity

/-!
# An unsealed item (`sealed-sky-web/README.md:220-228`, `App.tsx:252-355`)

No arrow leads out of `unsealed`, but an attempt never looks at the status that the item has by now. Ticks
and clicks go by the last render, and between the last patch of an attempt and the next render an
unsealed item still looks ready.

* `run_final` — an unsealed item stays so, as long as no tick or click takes one up again.
* `resealed` — what happens when one does.
-/
namespace SealedSky.Web.App

open Js

/-- No item with the id is unsealed. -/
def NotUnsealed (s : State) (id : JsString) : Prop :=
  ∀ it ∈ s.items, it.id = id → it.status ≠ .unsealed

/-- The ids that a tick or a click marks as ready or starts an attempt for. -/
def takesUp (s : State) : Action → List JsString
  | .tick now => ((dueItems (JsNum.divBy 1000 (ofRat now.ms)) s.view).filter fun it =>
      it.status = .sealed ∨ s.inFlight.contains it.id = false).map QueueItem.id
  | .click id => if s.inFlight.contains id then [] else [id]
  | _ => []

/-- A tick or a click only takes up what is not unsealed. -/
def UpToDate (s : State) (a : Action) : Prop := ∀ id ∈ takesUp s a, NotUnsealed s id

instance (s : State) (a : Action) : Decidable (UpToDate s a) :=
  inferInstanceAs (Decidable
    (∀ id ∈ takesUp s a, ∀ it ∈ s.items, it.id = id → it.status ≠ .unsealed))

/-- The attempts that are running are for ids of their own, and one for an unsealed item is done. -/
structure Settled (s : State) : Prop where
  flight : ∀ a ∈ s.attempts, s.inFlight.contains a.item.id = true
  single : (s.attempts.map fun a => a.item.id).Nodup
  ended : ∀ it ∈ s.items, it.status = .unsealed →
    ∀ a ∈ s.attempts, a.item.id = it.id → a.stage = .ended

/-- The items with the id are unsealed and have the plaintext. -/
def Shown (s : State) (id : JsString) (plaintext : Option JsString) : Prop :=
  ∀ it ∈ s.items, it.id = id → it.status = .unsealed ∧ it.plaintext = plaintext

/-! ## What a patch does to the status -/

/-- The first patch of an attempt is an error. -/
theorem start_status {item : QueueItem} {p : Patch} (h : (start item).1 = some p) :
    p.status = some .error := by
  unfold start at h
  cases hb : item.backend with
  | drand =>
    rw [hb] at h
    simp only at h
    split at h
    · cases h
      rfl
    · cases h
  | ctrng =>
    rw [hb] at h
    simp only at h
    split at h
    · cases h
      rfl
    · split at h
      · cases h
      · cases h

/-- An attempt that has ended writes nothing more, and one that writes `unsealed` has ended. -/
structure StatusOk (st : Stage) (p : Option Patch) (next : Option Stage) : Prop where
  ended : st = .ended → p = none ∧ next = none
  written : ∀ q, p = some q → ∃ status, q.status = some status ∧
    (status = .unsealed → next = some .ended)

theorem gate_status {item : QueueItem} {parsed : ParsedCtrngEnvelope} {witness : BeaconBlock}
    {p : Patch} (h : (gate item parsed witness).1 = some p) :
    p.status = some .ready ∨ p.status = some .unsealing := by
  unfold gate at h
  split at h
  · cases h
  · split at h
    · cases h
    · cases h
      exact Or.inl rfl
  · split at h
    · cases h
      exact Or.inr rfl
    · cases h
      exact Or.inr rfl

theorem statusOk_of {st : Stage} {q : Patch} {next : Option Stage} (hst : st ≠ .ended)
    {status : ItemStatus} (hq : q.status = some status)
    (hnext : status = .unsealed → next = some .ended) : StatusOk st (some q) next := by
  refine ⟨fun h => absurd h hst, fun q' h => ?_⟩
  cases h
  exact ⟨status, hq, hnext⟩

theorem statusOk_none {st : Stage} {next : Option Stage} (h : st = .ended → next = none) :
    StatusOk st none next := ⟨fun hst => ⟨rfl, h hst⟩, fun _ hq => nomatch hq⟩

theorem advance_status {A : AesGcm} {item : QueueItem} {st : Stage} {o : Outcome}
    {p : Option Patch} {next : Option Stage} (h : advance A item st o = some (p, next)) :
    StatusOk st p next := by
  cases advance_cases h with
  | thrown hst => exact statusOk_none fun hended => absurd hended hst
  | notYet => exact statusOk_of (by simp) rfl fun hst => by cases hst
  | malformed => exact statusOk_of (by simp) rfl fun hst => by cases hst
  | decrypts hunpack => exact statusOk_of (by simp) rfl fun hst => by cases hst
  | decrypted => exact statusOk_of (by simp) rfl fun _ => rfl
  | @fetched parsed reply witness hfetch =>
    cases hp : (gate item parsed witness).1 with
    | none => exact statusOk_none fun hst => by cases hst
    | some q =>
      rcases gate_status hp with hq | hq
      · exact statusOk_of (by simp) hq fun hst => by cases hst
      · exact statusOk_of (by simp) hq fun hst => by cases hst
  | mismatch => exact statusOk_of (by simp) rfl fun hst => by cases hst
  | verified hverify => exact statusOk_none fun hst => by cases hst
  | opened hopen => exact statusOk_of (by simp) rfl fun _ => rfl
  | caught => exact statusOk_of (by simp) rfl fun hst => by cases hst
  | ended => exact statusOk_none fun _ => rfl

/-! ## What keeps the attempts settled -/

section
variable {A : AesGcm} {s t : State}

/-- What a list has after a patch that is not for the unsealed. -/
theorem mem_patch_unsealed {items : List QueueItem} {id : JsString} {p : Option Patch}
    (hp : ∀ q, p = some q → ∃ status, q.status = some status ∧ status ≠ .unsealed) {it : QueueItem}
    (hit : it ∈ patchItems items id p) (hst : it.status = .unsealed) : it ∈ items := by
  rcases mem_patchItems hit with hold | ⟨it', -, q, hq, -, rfl⟩
  · exact hold
  · obtain ⟨status, hstatus, hne⟩ := hp q hq
    have hread : (it'.patch q).status = status := by
      rw [QueueItem.patch, hstatus]
      rfl
    exact absurd (hread ▸ hst) hne

theorem Settled.toDue (h : Settled s) (id : JsString) :
    Settled { s with items := updateItem s.items id State.toDue } := by
  refine ⟨h.flight, h.single, fun it hit hst => ?_⟩
  have hold : it ∈ s.items := by
    refine mem_patch_unsealed (p := some State.toDue) ?_ hit hst
    intro q hq
    cases hq
    exact ⟨.ready, rfl, fun hst => by cases hst⟩
  exact h.ended it hold hst

/-- What an attempt starts with leaves no item unsealed that was not. -/
theorem mem_start_unsealed {item it : QueueItem}
    (hit : it ∈ patchItems s.items item.id (start item).1) (hst : it.status = .unsealed) :
    it ∈ s.items :=
  mem_patch_unsealed (fun _ hq => ⟨.error, start_status hq, fun hst => by cases hst⟩) hit hst

theorem Settled.tryUnseal (h : Settled s) {item : QueueItem}
    (hok : s.inFlight.contains item.id = false → NotUnsealed s item.id) :
    Settled (s.tryUnseal item) := by
  unfold State.tryUnseal
  split
  · exact h
  · rename_i hflight
    have hidle : ∀ a ∈ s.attempts, a.item.id ≠ item.id :=
      fun a ha heq => hflight (heq ▸ h.flight a ha)
    refine ⟨fun a ha => ?_, ?_, fun it hit hst a ha hid => ?_⟩
    · rw [List.contains_iff_mem, List.mem_append]
      rcases List.mem_append.1 ha with ha | ha
      · exact Or.inl (List.contains_iff_mem.1 (h.flight a ha))
      · rw [List.mem_singleton.1 ha]
        exact Or.inr (List.mem_singleton_self _)
    · rw [List.map_append]
      refine List.Nodup.append h.single (List.nodup_singleton _) fun id hid hid' => ?_
      obtain ⟨a, ha, rfl⟩ := List.mem_map.1 hid
      exact hidle a ha (List.mem_singleton.1 hid')
    · have hold := mem_start_unsealed hit hst
      rcases List.mem_append.1 ha with ha | ha
      · exact h.ended it hold hst a ha hid
      · rw [List.mem_singleton.1 ha] at hid
        exact absurd hst (hok (Bool.eq_false_iff.2 hflight) it hold hid.symm)

/-- The other attempts are for other ids. -/
theorem Settled.other (h : Settled s) {i j : ℕ} {a a' : Attempt} (ha : s.attempts[i]? = some a)
    (ha' : s.attempts[j]? = some a') (hij : j ≠ i) : a'.item.id ≠ a.item.id := by
  intro heq
  obtain ⟨hj, -⟩ := List.getElem?_eq_some_iff.1 ha'
  have hj : j < (s.attempts.map fun a => a.item.id).length := by rwa [List.length_map]
  refine hij ((List.getElem?_inj hj h.single).1 ?_)
  rw [List.getElem?_map, List.getElem?_map, ha, ha']
  exact congrArg some heq

theorem afterAdvance_items (s : State) (i : ℕ) (a : Attempt) (o : Outcome) (p : Option Patch)
    (next : Option Stage) : (s.afterAdvance i a o p next).items = patchItems s.items a.item.id p := by
  cases next <;> rfl

/-- After a step of an attempt there are the others, and that one unless it is done. -/
theorem attempt_afterAdvance {i : ℕ} {a a' : Attempt} {o : Outcome} {p : Option Patch}
    {next : Option Stage} (h : a' ∈ (s.afterAdvance i a o p next).attempts) :
    (∃ st, next = some st ∧ a' = ⟨a.item, st⟩) ∨ ∃ j ≠ i, s.attempts[j]? = some a' := by
  cases next with
  | some st =>
    have h : a' ∈ s.attempts.set i ⟨a.item, st⟩ := h
    obtain ⟨j, hj⟩ := List.getElem?_of_mem h
    rw [List.getElem?_set] at hj
    by_cases hij : i = j
    · rw [if_pos hij] at hj
      split at hj
      · exact Or.inl ⟨st, rfl, (Option.some.inj hj).symm⟩
      · cases hj
    · rw [if_neg hij] at hj
      exact Or.inr ⟨j, fun heq => hij heq.symm, hj⟩
  | none =>
    have h : a' ∈ s.attempts.eraseIdx i := h
    exact Or.inr (List.mem_eraseIdx_iff_getElem?.1 h)

theorem Settled.advance (h : Settled s) {i : ℕ} {a : Attempt} {o : Outcome} {p : Option Patch}
    {next : Option Stage} (ha : s.attempts[i]? = some a) (hst : StatusOk a.stage p next) :
    Settled (s.afterAdvance i a o p next) := by
  have hmem : a ∈ s.attempts := List.mem_of_getElem? ha
  refine ⟨fun a' ha' => ?_, ?_, fun it hit hunsealed a' ha' hid => ?_⟩
  · cases next with
    | some st =>
      rcases attempt_afterAdvance ha' with ⟨st, -, rfl⟩ | ⟨j, -, hj⟩
      · exact h.flight a hmem
      · exact h.flight a' (List.mem_of_getElem? hj)
    | none =>
      rcases attempt_afterAdvance ha' with ⟨st, hnext, -⟩ | ⟨j, hji, hj⟩
      · cases hnext
      · have hold := h.flight a' (List.mem_of_getElem? hj)
        rw [List.contains_iff_mem] at hold ⊢
        exact List.mem_filter.2 ⟨hold, by simpa using h.other ha hj hji⟩
  · cases next with
    | some st =>
      have hsame : ((s.attempts.set i ⟨a.item, st⟩).map fun a => a.item.id) =
          s.attempts.map fun a => a.item.id := by
        rw [List.map_set]
        obtain ⟨hi, rfl⟩ := List.getElem?_eq_some_iff.1 ha
        have hi : i < (s.attempts.map fun a => a.item.id).length := by rwa [List.length_map]
        have hself := List.set_getElem_self hi
        rwa [List.getElem_map] at hself
      exact hsame ▸ h.single
    | none => exact h.single.sublist ((List.eraseIdx_sublist ..).map _)
  · rw [afterAdvance_items] at hit
    rcases attempt_afterAdvance ha' with ⟨st, rfl, rfl⟩ | ⟨j, hji, hj⟩
    · rcases mem_patchItems hit with hold | ⟨it', -, q, rfl, -, rfl⟩
      · have hended := h.ended it hold hunsealed a hmem hid
        cases (hst.ended hended).2
      · obtain ⟨status, hq, hnext⟩ := hst.written q rfl
        have hread : (it'.patch q).status = status := by
          rw [QueueItem.patch, hq]
          rfl
        cases hnext (hread.symm.trans hunsealed)
        rfl
    · have hother := h.other ha hj hji
      rcases mem_patchItems hit with hold | ⟨it', -, q, -, hid', rfl⟩
      · exact h.ended it hold hunsealed a' (List.mem_of_getElem? hj) hid
      · have hid : a'.item.id = it'.id := hid
        exact absurd (hid.trans hid') hother

/-! ## What keeps an unsealed item -/

variable {id : JsString} {plaintext : Option JsString}

/-- A patch for an id that no unsealed item has. -/
theorem Shown.patch (h : Shown s id plaintext) {id' : JsString} {p : Option Patch}
    (hid' : NotUnsealed s id') (hitems : t.items = patchItems s.items id' p) :
    Shown t id plaintext := by
  intro it hit hid
  rw [hitems] at hit
  rcases mem_patchItems hit with hold | ⟨it', hit', q, -, heq, rfl⟩
  · exact h it hold hid
  · exact absurd (h it' hit' hid).1 (hid' it' hit' heq)

theorem NotUnsealed.patch (h : NotUnsealed s id) {id' : JsString} {p : Option Patch}
    (hp : ∀ q, p = some q → ∃ status, q.status = some status ∧ status ≠ .unsealed)
    (hitems : t.items = patchItems s.items id' p) : NotUnsealed t id := by
  intro it hit hid hst
  rw [hitems] at hit
  exact h it (mem_patch_unsealed hp hit hst) hid hst

theorem tryUnseal_cases (s : State) (item : QueueItem) : s.tryUnseal item = s ∨
    s.inFlight.contains item.id = false ∧
      (s.tryUnseal item).items = patchItems s.items item.id (start item).1 ∧
      (s.tryUnseal item).inFlight = s.inFlight ++ [item.id] := by
  unfold State.tryUnseal
  split
  · exact Or.inl rfl
  · rename_i hflight
    exact Or.inr ⟨Bool.eq_false_iff.2 hflight, rfl, rfl⟩

/-- What a tick keeps, from the state in which it began. -/
structure TickOk (s : State) (id : JsString) (plaintext : Option JsString) (t : State) : Prop where
  settled : Settled t
  flight : ∀ id', s.inFlight.contains id' = true → t.inFlight.contains id' = true
  notUnsealed : ∀ id', NotUnsealed s id' → NotUnsealed t id'
  shown : Shown s id plaintext → Shown t id plaintext

theorem TickOk.refl (h : Settled s) : TickOk s id plaintext s :=
  ⟨h, fun _ h => h, fun _ h => h, fun h => h⟩

theorem TickOk.toDue (h : TickOk s id plaintext t) {id' : JsString} (hid' : NotUnsealed s id') :
    TickOk s id plaintext { t with items := updateItem t.items id' State.toDue } := by
  refine ⟨h.settled.toDue id', h.flight, fun id'' hid'' => ?_, fun hshown => ?_⟩
  · refine (h.notUnsealed id'' hid'').patch (p := some State.toDue) ?_ rfl
    intro q hq
    cases hq
    exact ⟨.ready, rfl, fun hst => by cases hst⟩
  · exact (h.shown hshown).patch (p := some State.toDue) (h.notUnsealed id' hid') rfl

theorem TickOk.tryUnseal (h : TickOk s id plaintext t) {item : QueueItem}
    (hok : s.inFlight.contains item.id = false → NotUnsealed s item.id) :
    TickOk s id plaintext (t.tryUnseal item) := by
  have hok' : t.inFlight.contains item.id = false → NotUnsealed t item.id := by
    intro hidle
    refine h.notUnsealed item.id (hok ?_)
    cases hflight : s.inFlight.contains item.id with
    | false => rfl
    | true => exact absurd (h.flight item.id hflight) (Bool.eq_false_iff.1 hidle)
  rcases tryUnseal_cases t item with heq | ⟨hidle, hitems, hflight⟩
  · exact heq.symm ▸ h
  · refine ⟨h.settled.tryUnseal hok', fun id' hid' => ?_, fun id' hid' => ?_, fun hshown => ?_⟩
    · rw [hflight, List.contains_iff_mem]
      exact List.mem_append_left _ (List.contains_iff_mem.1 (h.flight id' hid'))
    · exact (h.notUnsealed id' hid').patch
        (fun q hq => ⟨.error, start_status hq, fun hst => by cases hst⟩) hitems
    · exact (h.shown hshown).patch (hok' hidle) hitems

theorem tickOk_tickLoop (h : Settled s) {tSec : JsNum} {its : List QueueItem}
    (hok : ∀ it ∈ dueItems tSec its,
      it.status = .sealed ∨ s.inFlight.contains it.id = false → NotUnsealed s it.id) :
    TickOk s id plaintext (s.tickLoop tSec its) := by
  refine tickLoop_inv ?_ ?_ (TickOk.refl h)
  · intro t it hit hst ht
    exact ht.toDue (hok it hit (Or.inl hst))
  · intro t it hit _ ht
    exact ht.tryUnseal fun hidle => hok it hit (Or.inr hidle)

/-- **A step that is up to date** keeps the attempts settled and what an unsealed item shows. -/
theorem step_shown {a : Action} (hstep : s.step A a = some t) (hreload : a.isReload = false)
    (hdate : UpToDate s a) (h : Settled s) :
    Settled t ∧ (id ∈ s.ids → Shown s id plaintext → Shown t id plaintext) := by
  cases step_effect hstep hreload with
  | idle _ hitems _ hflight hattempts =>
    refine ⟨⟨?_, ?_, ?_⟩, fun _ hshown it hit => hshown it (hitems ▸ hit)⟩
    · rw [hattempts, hflight]
      exact h.flight
    · rw [hattempts]
      exact h.single
    · rw [hitems, hattempts]
      exact h.ended
  | inserted item _ _ hstatus hfresh hitems _ hflight hattempts =>
    have hmem : ∀ it ∈ t.items, it ∈ s.items ∨ it = item := by
      intro it hit
      rcases hitems with hitems | hitems
      · exact Or.inl (hitems ▸ hit)
      · rw [hitems] at hit
        exact (List.mem_append.1 hit).imp_right List.mem_singleton.1
    refine ⟨⟨?_, ?_, fun it hit hunsealed => ?_⟩, fun hid hshown it hit heq => ?_⟩
    · rw [hattempts, hflight]
      exact h.flight
    · rw [hattempts]
      exact h.single
    · rw [hattempts]
      rcases hmem it hit with hold | rfl
      · exact h.ended it hold hunsealed
      · rw [hstatus] at hunsealed
        cases hunsealed
    · rcases hmem it hit with hold | rfl
      · exact hshown it hold heq
      · obtain ⟨o, ho, hoid⟩ := List.mem_map.1 hid
        exact absurd (hoid.trans heq.symm) (isFresh_iff.1 hfresh o ho)
  | ticked now =>
    have hok : TickOk s id plaintext
        (s.tickLoop (JsNum.divBy 1000 (ofRat now.ms)) s.view) := by
      refine tickOk_tickLoop h fun it hit hacts => hdate it.id ?_
      exact List.mem_map_of_mem (List.mem_filter.2 ⟨hit, by simpa using hacts⟩)
    exact ⟨hok.settled, fun _ => hok.shown⟩
  | clicked it _ =>
    have hok : TickOk s id plaintext (s.tryUnseal it) := by
      refine (TickOk.refl h).tryUnseal fun hidle => hdate it.id ?_
      rw [takesUp, if_neg (Bool.eq_false_iff.1 hidle)]
      exact List.mem_singleton_self _
    exact ⟨hok.settled, fun _ => hok.shown⟩
  | advanced i o a p next ha hadv =>
    have hst := advance_status hadv
    refine ⟨h.advance ha hst, fun _ hshown => ?_⟩
    by_cases hended : a.stage = .ended
    · obtain ⟨rfl, rfl⟩ := hst.ended hended
      exact hshown
    · have hnot : NotUnsealed s a.item.id := by
        intro it hit hid hunsealed
        exact hended (h.ended it hit hunsealed a (List.mem_of_getElem? ha) hid.symm)
      exact hshown.patch hnot (afterAdvance_items s i a o p next)
  | published i name id' _ =>
    have hkeep : ∀ it : QueueItem, (it.patch (State.publishPatch name)).status = it.status ∧
        (it.patch (State.publishPatch name)).plaintext = it.plaintext := by
      intro it
      cases name <;> exact ⟨rfl, rfl⟩
    refine ⟨⟨h.flight, h.single, fun it hit hunsealed => ?_⟩, fun _ hshown it hit hid => ?_⟩
    · rcases mem_updateItem hit with hold | ⟨it', hit', -, rfl⟩
      · exact h.ended it hold hunsealed
      · exact h.ended it' hit' ((hkeep it').1 ▸ hunsealed)
    · rcases mem_updateItem hit with hold | ⟨it', hit', -, rfl⟩
      · exact hshown it hold hid
      · rw [(hkeep it').1, (hkeep it').2]
        exact hshown it' hit' hid
  | deleted id' =>
    exact ⟨⟨h.flight, h.single, fun it hit => h.ended it (List.mem_filter.1 hit).1⟩,
      fun _ hshown it hit => hshown it (List.mem_filter.1 hit).1⟩

theorem settled_init : Settled State.init :=
  ⟨fun _ ha => (nomatch ha), List.nodup_nil, fun _ hit => (nomatch hit)⟩

end

/-! ## Runs -/

section
variable {A : AesGcm} {s t : State}

/-- What an unsealed item shows, after any steps that are up to date. -/
theorem run_shown {as : List Action} (id : JsString) (plaintext : Option JsString)
    (hreload : ∀ a ∈ as, a.isReload = false) (hdate : (app A).Meets UpToDate s as)
    (h : Settled s) (hrun : (app A).run s as = some t) :
    Settled t ∧ (id ∈ s.ids → Shown s id plaintext → Shown t id plaintext) := by
  have hmeets : (app A).Meets (fun s a => a.isReload = false ∧ UpToDate s a) s as :=
    (Lts.meets_of_mem fun _ a ha => hreload a ha).and hdate
  refine (Lts.run_inv_of_meets (P := fun m => (∀ id ∈ s.ids, id ∈ m.ids) ∧ Settled m ∧
    (id ∈ s.ids → Shown s id plaintext → Shown m id plaintext)) ?_ ⟨fun _ h => h, h, fun _ h => h⟩
      hmeets hrun).2
  rintro m a u ⟨hknown, hm, hshown⟩ ⟨ha, hdate⟩ hstep
  obtain ⟨hu, hkeeps⟩ := step_shown hstep ha hdate hm
  refine ⟨fun id hid => (step_follows hstep ha).known id (hknown id hid), hu, fun hid h => ?_⟩
  exact hkeeps (hknown id hid) (hshown hid h)

/-- **An unsealed item stays unsealed and keeps its plaintext** until it is deleted, in every run without
a reload in which no tick or click takes up an item that is unsealed by then. -/
theorem run_final {as bs : List Action} {it : QueueItem}
    (hreload : ∀ a ∈ as ++ bs, a.isReload = false)
    (hdate : (app A).Meets UpToDate (app A).init (as ++ bs))
    (hs : (app A).run (app A).init as = some s) (ht : (app A).run s bs = some t)
    (hit : it ∈ s.items) (hunsealed : it.status = .unsealed) (hdel : it.id ∉ deletions bs) :
    it.id ∈ t.items.map QueueItem.id ∧
      ∀ it' ∈ t.items, it'.id = it.id → it'.status = .unsealed ∧ it'.plaintext = it.plaintext := by
  obtain ⟨hdate, hdate'⟩ := (Lts.meets_append hs).1 hdate
  have hbefore := fun a ha => hreload a (List.mem_append_left bs ha)
  have hafter := fun a ha => hreload a (List.mem_append_right as ha)
  have hdistinct : Distinct s := distinct_init.follows (run_follows hbefore hs)
  have hsettled : Settled s :=
    (run_shown it.id none hbefore hdate settled_init hs).1
  constructor
  · obtain ⟨new, hnew, -⟩ := (run_follows hafter ht).items
    have hmem : it.fixed ∈ t.items.map QueueItem.fixed := by
      rw [hnew, List.mem_append, List.mem_filter]
      refine Or.inl ⟨List.mem_map_of_mem hit, ?_⟩
      simpa using hdel
    obtain ⟨it', hit', hfixed⟩ := List.mem_map.1 hmem
    exact List.mem_map.2 ⟨it', hit', congrArg Fixed.id hfixed⟩
  · refine (run_shown it.id it.plaintext hafter hdate' hsettled ht).2 (hdistinct.known it hit)
      fun it' hit' hid => ?_
    obtain rfl : it' = it := List.inj_on_of_nodup_map hdistinct.nodup hit' hit hid
    exact ⟨hunsealed, rfl⟩

end

/-- A drand capsule is sealed, comes due and is opened. -/
def openRun : List Action :=
  [.sealDrand (ofRat 1) (ofRat 1) [] none none (js "a") ⟨500, by decide⟩, .render,
    .tick ⟨2000, by decide⟩, .render, .tick ⟨2000, by decide⟩, .advance 0 (.round (.ok true)),
    .advance 0 (.decrypted (.ok (js "hi")))]

theorem run_openRun : ∃ s it, (app zeroVector).run (app zeroVector).init openRun = some s ∧
    s.items = [it] ∧ it.id = js "a" ∧ it.status = .unsealed ∧ it.plaintext = some (js "hi") := by
  have heval : ((app zeroVector).run (app zeroVector).init openRun).map (fun s =>
      s.items.map fun it => (it.id, it.status, it.plaintext)) =
        some [(js "a", .unsealed, some (js "hi"))] := by decide +kernel
  obtain ⟨s, hs, hitems⟩ := Option.map_eq_some_iff.1 heval
  obtain ⟨it, hit, heq⟩ := List.map_eq_singleton_iff.1 hitems
  obtain ⟨hid, hrest⟩ := Prod.mk.inj heq
  obtain ⟨hst, hplain⟩ := Prod.mk.inj hrest
  exact ⟨s, it, hs, hit, hid, hst, hplain⟩

theorem final_rendered : ∃ s t it, (app zeroVector).run (app zeroVector).init openRun = some s ∧
    it ∈ s.items ∧ it.status = .unsealed ∧
    (app zeroVector).run s [.advance 0 .settled, .render, .tick ⟨2000, by decide⟩] = some t ∧
    ∀ it' ∈ t.items, it'.id = it.id → it'.status = .unsealed ∧ it'.plaintext = it.plaintext := by
  obtain ⟨s, it, hs, hitems, hid, hst, -⟩ := run_openRun
  have hit : it ∈ s.items := hitems ▸ List.mem_singleton_self it
  have hall : ((app zeroVector).run (app zeroVector).init (openRun ++
      [.advance 0 .settled, .render, .tick ⟨2000, by decide⟩])).isSome = true := by decide +kernel
  rw [Lts.run_append, hs, Option.bind_some] at hall
  obtain ⟨t, ht⟩ := Option.isSome_iff_exists.1 hall
  refine ⟨s, t, it, hs, hit, hst, ht, ?_⟩
  exact (run_final (by decide) (by decide +kernel) hs ht hit hst (by simp [deletions, deletedBy])).2

/-- Between the end of the attempt and the next render, a tick begins a second one, and when that finds
no network the item shows an error. -/
theorem resealed : ∃ s t it it', (app zeroVector).run (app zeroVector).init openRun = some s ∧
    it ∈ s.items ∧ it.status = .unsealed ∧ it.plaintext = some (js "hi") ∧
    (app zeroVector).run s
      [.advance 0 .settled, .tick ⟨2000, by decide⟩, .advance 0 (.round (.error .engine)),
        .advance 0 (.caught (js "Failed to fetch"))] = some t ∧
    it' ∈ t.items ∧ it'.id = it.id ∧ it'.status = .error := by
  obtain ⟨s, it, hs, hitems, hid, hst, hplain⟩ := run_openRun
  have hit : it ∈ s.items := hitems ▸ List.mem_singleton_self it
  have hall : ((app zeroVector).run (app zeroVector).init (openRun ++
      [.advance 0 .settled, .tick ⟨2000, by decide⟩, .advance 0 (.round (.error .engine)),
        .advance 0 (.caught (js "Failed to fetch"))])).map (fun s =>
          s.items.map fun it => (it.id, it.status)) = some [(js "a", .error)] := by decide +kernel
  rw [Lts.run_append, hs, Option.bind_some] at hall
  obtain ⟨t, ht, hitems'⟩ := Option.map_eq_some_iff.1 hall
  obtain ⟨it', hit', heq⟩ := List.map_eq_singleton_iff.1 hitems'
  obtain ⟨hid', hst'⟩ := Prod.mk.inj heq
  exact ⟨s, t, it, it', hs, hit, hst, hplain, ht, hit' ▸ List.mem_singleton_self it',
    hid'.trans hid.symm, hst'⟩

end SealedSky.Web.App
