import SealedSky.Web.App
import SealedSky.Web.Fidelity

/-!
# The reveal gate (`sealed-sky-web/src/App.tsx:272-347`)

A cTRNG item gets its plaintext from an attempt that has checked a beacon block and the commitment. The
attempt works on an old copy of the item, but no patch changes what the checks depend on: the id, the
envelope and the key.

* `run_revealed` — in every run, every cTRNG item with a plaintext was opened by a fetched block, and
  shows that block as its witness.
-/
namespace SealedSky.Web.App

open Js

/-- A property of an item shows a number. After a reload one that is not finite has become `null`. -/
def Shows (wasLoaded : Prop) (v : JsValue) (x : JsNum) : Prop :=
  v = .num x ∨ wasLoaded ∧ x.isFinite = false ∧ v = .null

/-- A cTRNG item with a plaintext was opened by a block that an attempt for its id has fetched, and
shows the sequence and the timestamp of that block. -/
def Revealed (A : AesGcm) (fetched : List (JsString × BeaconBlock)) (wasLoaded : Prop)
    (it : QueueItem) : Prop :=
  it.backend = .ctrng → ∀ plaintext, it.plaintext = some plaintext →
    ∃ witness, (it.id, witness) ∈ fetched ∧
      Opened A it.envelope it.ctrngKeyB64 witness plaintext ∧
      Shows wasLoaded it.ctrngWitnessSequence witness.sequence ∧
      Shows wasLoaded it.ctrngWitnessTimestamp witness.timestamp

/-- The blocks that attempts for an id have fetched. -/
def SeenFor (s : State) (id : JsString) (b : BeaconBlock) : Prop := (id, b) ∈ s.fetched

structure ItemOk (A : AesGcm) (s : State) (it : QueueItem) : Prop where
  known : it.origin ∈ s.known
  revealed : Revealed A s.fetched (it.id ∈ s.loaded) it

structure AttemptOk (s : State) (a : Attempt) : Prop where
  known : a.item.origin ∈ s.known
  stage : StageOk (SeenFor s a.item.id) a.item a.stage

structure Inv (A : AesGcm) (s : State) : Prop where
  unique : ∀ o ∈ s.known, ∀ o' ∈ s.known, o.id = o'.id → o = o'
  items : ∀ it ∈ s.items, ItemOk A s it
  view : ∀ it ∈ s.view, ItemOk A s it
  stored : ∀ it ∈ Tabs.load s.stored, it.origin ∈ s.known ∧ Revealed A s.fetched True it
  attempts : ∀ a ∈ s.attempts, AttemptOk s a

/-! ## What keeps an item good -/

section
variable {A : AesGcm} {fetched fetched' : List (JsString × BeaconBlock)} {loaded loaded' : Prop}
  {it : QueueItem} {s s' : State}

theorem Shows.mono {v : JsValue} {x : JsNum} (h : Shows loaded v x) (hl : loaded → loaded') :
    Shows loaded' v x := h.imp_right fun h => ⟨hl h.1, h.2⟩

theorem Revealed.mono (h : Revealed A fetched loaded it) (hf : ∀ x ∈ fetched, x ∈ fetched')
    (hl : loaded → loaded') : Revealed A fetched' loaded' it := by
  intro hb plaintext hp
  obtain ⟨witness, hmem, hopen, hseq, hts⟩ := h hb plaintext hp
  exact ⟨witness, hf _ hmem, hopen, hseq.mono hl, hts.mono hl⟩

/-- A state has seen and inserted all that another has. -/
structure Grows (s s' : State) : Prop where
  known : ∀ o ∈ s.known, o ∈ s'.known
  fetched : ∀ x ∈ s.fetched, x ∈ s'.fetched
  loaded : ∀ id ∈ s.loaded, id ∈ s'.loaded

theorem ItemOk.mono (h : ItemOk A s it) (hg : Grows s s') : ItemOk A s' it :=
  ⟨hg.known _ h.known, h.revealed.mono hg.fetched (hg.loaded _)⟩

theorem AttemptOk.mono {a : Attempt} (h : AttemptOk s a) (hg : Grows s s') : AttemptOk s' a :=
  ⟨hg.known _ h.known, h.stage.mono fun _ => hg.fetched _⟩

theorem Revealed.quiet {p : Patch} (h : Revealed A fetched loaded it) (hp : Quiet p) :
    Revealed A fetched loaded (it.patch p) := by
  obtain ⟨htext, hseq, hts⟩ := hp
  intro hb plaintext hplain
  have hplain : p.plaintext.or it.plaintext = some plaintext := hplain
  rw [htext, Option.none_or] at hplain
  obtain ⟨witness, hmem, hopen, hshow, hshow'⟩ := h hb plaintext hplain
  refine ⟨witness, hmem, hopen, ?_, ?_⟩
  · have heq : (it.patch p).ctrngWitnessSequence = it.ctrngWitnessSequence := by
      rw [QueueItem.patch, hseq]
      rfl
    rwa [heq]
  · have heq : (it.patch p).ctrngWitnessTimestamp = it.ctrngWitnessTimestamp := by
      rw [QueueItem.patch, hts]
      rfl
    rwa [heq]

/-- What an attempt writes keeps the item that it is for good. -/
theorem Revealed.patch {item : QueueItem} {p : Patch} (h : Revealed A fetched loaded it)
    (hp : PatchOk A (fun b => (item.id, b) ∈ fetched) item p) (horigin : it.origin = item.origin) :
    Revealed A fetched loaded (it.patch p) := by
  obtain ⟨hid, hback, henvelope, hkey⟩ := Origin.mk.inj horigin
  rcases hp with hquiet | hdrand | ⟨witness, plaintext, rfl, hseen, hopen⟩
  · exact h.quiet hquiet
  · intro hb
    have hb : it.backend = .ctrng := hb
    rw [hback, hdrand] at hb
    cases hb
  · intro _ plaintext' hplain
    cases hplain
    refine ⟨witness, ?_, ?_, Or.inl rfl, Or.inl rfl⟩
    · exact hid ▸ hseen
    · have hgoal : Opened A it.envelope it.ctrngKeyB64 witness plaintext := by
        rwa [henvelope, hkey]
      exact hgoal

theorem propJson_num (x : JsNum) : propJson (.num x) = if x.isFinite then .num x else .null := rfl

/-- What is saved and loaded shows the same number, or `null`. -/
theorem Shows.reloaded {v : JsValue} {x : JsNum} (h : Shows loaded v x) :
    Shows True (propJson v) x := by
  rcases h with rfl | ⟨-, hfin, rfl⟩
  · rw [propJson_num]
    split
    · exact Or.inl rfl
    · rename_i hfin
      exact Or.inr ⟨trivial, Bool.eq_false_iff.2 hfin, rfl⟩
  · exact Or.inr ⟨trivial, hfin, rfl⟩

theorem Revealed.reloaded (h : Revealed A fetched loaded it) :
    Revealed A fetched True it.reloaded := by
  intro hb plaintext hp
  obtain ⟨witness, hmem, hopen, hseq, hts⟩ := h hb plaintext hp
  exact ⟨witness, hmem, hopen, hseq.reloaded, hts.reloaded⟩

end

/-! ## What keeps a state good -/

section
variable {A : AesGcm} {s s' : State}

/-- A step keeps the invariant if all that it adds is good. -/
theorem Inv.frame (h : Inv A s) (hg : Grows s s') (hknown : s'.known = s.known)
    (hstored : s'.stored = s.stored)
    (hitems : ∀ it ∈ s'.items, it ∈ s.items ∨ ItemOk A s' it)
    (hview : ∀ it ∈ s'.view, it ∈ s.view ∨ ItemOk A s' it)
    (hattempts : ∀ a ∈ s'.attempts, a ∈ s.attempts ∨ AttemptOk s' a) : Inv A s' := by
  refine ⟨hknown ▸ h.unique, fun it hit => ?_, fun it hit => ?_, fun it hit => ?_, fun a ha => ?_⟩
  · exact (hitems it hit).elim (fun hold => (h.items it hold).mono hg) id
  · exact (hview it hit).elim (fun hold => (h.view it hold).mono hg) id
  · obtain ⟨hmem, hrev⟩ := h.stored it (hstored ▸ hit)
    exact ⟨hg.known _ hmem, hrev.mono hg.fetched id⟩
  · exact (hattempts a ha).elim (fun hold => (h.attempts a hold).mono hg) id

/-- A patch of an attempt keeps every item good. -/
theorem items_patch (h : Inv A s) {item : QueueItem} {p : Option Patch} (hg : Grows s s')
    (hitem : item.origin ∈ s.known)
    (hp : ∀ q, p = some q → PatchOk A (SeenFor s' item.id) item q) :
    ∀ it ∈ patchItems s.items item.id p, it ∈ s.items ∨ ItemOk A s' it := by
  intro it hit
  refine (mem_patchItems hit).imp_right ?_
  rintro ⟨it', hit', q, hq, hid, rfl⟩
  have hok := (h.items it' hit').mono hg
  have horigin : it'.origin = item.origin :=
    h.unique _ (h.items it' hit').known _ hitem hid
  exact ⟨hok.known, hok.revealed.patch (hp q hq) horigin⟩

/-- So does a patch that writes neither a plaintext nor a witness, whoever it is for. -/
theorem items_quiet (h : Inv A s) {id : JsString} {p : Patch} (hg : Grows s s') (hp : Quiet p) :
    ∀ it ∈ updateItem s.items id p, it ∈ s.items ∨ ItemOk A s' it := by
  intro it hit
  refine (mem_updateItem hit).imp_right ?_
  rintro ⟨it', hit', -, rfl⟩
  have hok := (h.items it' hit').mono hg
  exact ⟨hok.known, hok.revealed.quiet hp⟩

theorem Grows.of_eq (hknown : s'.known = s.known) (hfetched : s'.fetched = s.fetched)
    (hloaded : s'.loaded = s.loaded) : Grows s s' :=
  ⟨fun _ ho => hknown ▸ ho, fun _ hx => hfetched ▸ hx, fun _ hid => hloaded ▸ hid⟩

theorem Inv.tryUnseal (h : Inv A s) {item : QueueItem} (hitem : item.origin ∈ s.known) :
    Inv A (s.tryUnseal item) := by
  unfold State.tryUnseal
  split
  · exact h
  · obtain ⟨hstage, hquiet⟩ := start_spec (SeenFor s item.id) item
    have hg : Grows s { s with
        items := patchItems s.items item.id (start item).1
        inFlight := s.inFlight ++ [item.id]
        attempts := s.attempts ++ [⟨item, (start item).2⟩] } := Grows.of_eq rfl rfl rfl
    refine h.frame hg rfl rfl ?_ (fun it hit => Or.inl hit) fun a ha => ?_
    · exact items_patch h hg hitem fun q hq => Or.inl (hquiet q hq)
    · refine (List.mem_append.1 ha).imp_right fun ha => ?_
      rw [List.mem_singleton.1 ha]
      exact ⟨hitem, hstage⟩

theorem Inv.tickLoop (h : Inv A s) {tSec : JsNum} {its : List QueueItem}
    (hits : ∀ it ∈ its, it.origin ∈ s.known) : Inv A (s.tickLoop tSec its) := by
  refine (tickLoop_inv (P := fun s' => Inv A s' ∧ s'.known = s.known) ?_ ?_ ⟨h, rfl⟩).1
  · rintro s' it - - ⟨hs', hknown⟩
    refine ⟨hs'.frame (Grows.of_eq rfl rfl rfl) rfl rfl ?_ (fun it hit => Or.inl hit)
      fun a ha => Or.inl ha, hknown⟩
    exact items_quiet hs' (Grows.of_eq rfl rfl rfl) ⟨rfl, rfl, rfl⟩
  · rintro s' it hit - ⟨hs', hknown⟩
    refine ⟨hs'.tryUnseal (hknown ▸ hits it (mem_dueItems hit)), ?_⟩
    unfold State.tryUnseal
    split
    · exact hknown
    · exact hknown

theorem Inv.advance (h : Inv A s) {i : ℕ} {a : Attempt} {o : Outcome} {p : Option Patch}
    {next : Option Stage} (ha : s.attempts[i]? = some a)
    (hadv : advance A a.item a.stage o = some (p, next)) : Inv A (s.afterAdvance i a o p next) := by
  have hmem : a ∈ s.attempts := List.mem_of_getElem? ha
  have hok := h.attempts a hmem
  have hfields : ∀ s', s' = s.afterAdvance i a o p next → s'.known = s.known ∧
      s'.stored = s.stored ∧ s'.view = s.view ∧ s'.loaded = s.loaded ∧
      s'.items = patchItems s.items a.item.id p ∧
      s'.fetched = s.fetched ++ (fetchedBy a.stage o).toList.map fun b => (a.item.id, b) := by
    rintro s' rfl
    cases next <;> exact ⟨rfl, rfl, rfl, rfl, rfl, rfl⟩
  obtain ⟨hknown, hstored, hview, hloaded, hitems, hfetched⟩ := hfields _ rfl
  have hg : Grows s (s.afterAdvance i a o p next) :=
    ⟨fun _ ho => hknown ▸ ho, fun x hx => hfetched ▸ List.mem_append_left _ hx,
      fun _ hid => hloaded ▸ hid⟩
  have hnew : ∀ b, fetchedBy a.stage o = some b →
      SeenFor (s.afterAdvance i a o p next) a.item.id b := by
    intro b hb
    rw [SeenFor, hfetched, hb]
    exact List.mem_append_right _ (by simp)
  obtain ⟨hstage, hpatch⟩ := advance_spec hok.stage (fun b hb => hg.fetched _ hb) hnew hadv
  refine h.frame hg hknown hstored ?_ (fun it hit => Or.inl (hview ▸ hit)) fun a' ha' => ?_
  · rw [hitems]
    exact items_patch h hg hok.known hpatch
  · cases next with
    | some st =>
      have ha' : a' ∈ s.attempts.set i ⟨a.item, st⟩ := ha'
      rcases List.mem_or_eq_of_mem_set ha' with hold | rfl
      · exact Or.inl hold
      · exact Or.inr ⟨hg.known _ hok.known, hstage st rfl⟩
    | none => exact Or.inl (List.mem_of_mem_eraseIdx ha')

/-- An item without a plaintext has nothing to show. -/
theorem Revealed.of_none {fetched : List (JsString × BeaconBlock)} {loaded : Prop} {it : QueueItem}
    (h : it.plaintext = none) : Revealed A fetched loaded it := by
  intro _ plaintext hp
  rw [h] at hp
  cases hp

/-- A new item has a new id and no plaintext. -/
theorem Inv.insert (h : Inv A s) {item : QueueItem} (hfresh : s.isFresh item.id = true)
    (hplain : item.plaintext = none) (hg : Grows s s')
    (hknown : s'.known = s.known ++ [item.origin]) (hstored : s'.stored = s.stored)
    (hitems : ∀ it ∈ s'.items, it ∈ s.items ∨ it = item) (hview : s'.view = s.view)
    (hattempts : s'.attempts = s.attempts) : Inv A s' := by
  have hmem : item.origin ∈ s'.known := by
    rw [hknown]
    exact List.mem_append_right _ (List.mem_singleton_self _)
  have hne := isFresh_iff.1 hfresh
  refine ⟨?_, fun it hit => ?_, fun it hit => (h.view it (hview ▸ hit)).mono hg, fun it hit => ?_,
    fun a ha => (h.attempts a (hattempts ▸ ha)).mono hg⟩
  · rw [hknown]
    exact unique_append h.unique hne
  · rcases hitems it hit with hold | rfl
    · exact (h.items it hold).mono hg
    · exact ⟨hmem, Revealed.of_none hplain⟩
  · obtain ⟨hold, hrev⟩ := h.stored it (hstored ▸ hit)
    exact ⟨hg.known _ hold, hrev.mono hg.fetched id⟩

theorem Grows.insert {item : QueueItem} {items : List QueueItem} {publishing : List JsString} :
    Grows s { s with items, publishing, known := s.known ++ [item.origin] } :=
  ⟨fun _ ho => List.mem_append_left _ ho, fun _ hx => hx, fun _ hid => hid⟩

theorem Inv.insertSealed (h : Inv A s) {item : QueueItem} (hplain : item.plaintext = none)
    (hstep : s.insertSealed item = some s') : Inv A s' := by
  unfold State.insertSealed at hstep
  split at hstep
  · rename_i hfresh
    cases hstep
    refine h.insert hfresh hplain Grows.insert rfl rfl (fun it hit => ?_) rfl rfl
    exact (List.mem_append.1 hit).imp_right List.mem_singleton.1
  · cases hstep

theorem Inv.insertImport (h : Inv A s) {item : QueueItem} (hplain : item.plaintext = none)
    (hstep : s.insertImport item = some s') : Inv A s' := by
  unfold State.insertImport at hstep
  split at hstep
  · rename_i hfresh
    cases hstep
    exact h.insert hfresh hplain Grows.insert rfl rfl (fun it hit => mem_insertImported hit) rfl rfl
  · cases hstep

theorem Inv.save (h : Inv A s) :
    Inv A { s with stored := some (saveQueue (s.view.map QueueItem.toJson)) } := by
  have hg : Grows s { s with stored := some (saveQueue (s.view.map QueueItem.toJson)) } :=
    Grows.of_eq rfl rfl rfl
  refine ⟨h.unique, fun it hit => (h.items it hit).mono hg, fun it hit => (h.view it hit).mono hg,
    fun it hit => ?_, fun a ha => (h.attempts a ha).mono hg⟩
  rw [Tabs.load_saved] at hit
  obtain ⟨it', hit', rfl⟩ := List.mem_map.1 hit
  have hok := h.view it' hit'
  exact ⟨hok.known, hok.revealed.reloaded⟩

theorem Inv.reload (h : Inv A s) : Inv A s.reload := by
  have hitem : ∀ it ∈ Tabs.load s.stored, ItemOk A s.reload it := by
    intro it hit
    obtain ⟨hmem, hrev⟩ := h.stored it hit
    have hloaded : it.id ∈ s.reload.loaded := List.mem_append_right _ (List.mem_map_of_mem hit)
    exact ⟨hmem, hrev.mono (fun _ hx => hx) fun _ => hloaded⟩
  exact ⟨h.unique, hitem, hitem, h.stored, fun a ha => nomatch ha⟩

theorem inv_init (A : AesGcm) : Inv A State.init := by
  refine ⟨?_, ?_, ?_, ?_, ?_⟩
  · rintro o ⟨⟩
  · rintro it ⟨⟩
  · rintro it ⟨⟩
  · rintro it ⟨⟩
  · rintro a ⟨⟩

/-- An imported item has no plaintext. -/
theorem plaintext_importLink {page : Page} {readEnsText : JsString → JsString → Option JsString}
    {timeAt : JsValue → Result JsValue} {now : TimeValue} {newId : JsString} {item : QueueItem}
    (h : importLink page readEnsText timeAt now newId = .ok (some item)) : item.plaintext = none := by
  obtain ⟨imp, ens, hfinal⟩ := finalise_of_importLink h
  exact (finalise_cases hfinal).2.2.1

theorem step_inv (s : State) (a : Action) (s' : State) (h : Inv A s)
    (hstep : s.step A a = some s') : Inv A s' := by
  cases a with
  | render =>
    cases hstep
    have hg : Grows s { s with view := s.items } := Grows.of_eq rfl rfl rfl
    exact h.frame hg rfl rfl (fun it hit => Or.inl hit)
      (fun it hit => Or.inr ((h.items it hit).mono hg)) fun a ha => Or.inl ha
  | save =>
    cases hstep
    exact h.save
  | sealDrand round actualUnlock ct recipientEns senderEns newId now =>
    exact h.insertSealed rfl hstep
  | sealCtrng message unlockUnix recipientEns senderEns reply keyBytes iv newId now =>
    rw [State.step] at hstep
    split at hstep
    · cases hstep
      exact h
    · rename_i item hitem
      refine h.insertSealed ?_ hstep
      obtain ⟨sealed, -, rfl⟩ := sealCtrng_cases hitem
      rfl
  | importLink page readEnsText timeAt now newId =>
    rw [State.step] at hstep
    split at hstep
    · rename_i item hitem
      exact h.insertImport (plaintext_importLink hitem) hstep
    · cases hstep
      exact h
  | tick now =>
    cases hstep
    exact h.tickLoop fun it hit => (h.view it hit).known
  | click id =>
    rw [State.step] at hstep
    split at hstep
    · cases hstep
      exact h
    · rename_i it hfind
      cases hstep
      exact h.tryUnseal (h.view it (List.mem_of_find?_eq_some hfind)).known
  | advance i o =>
    obtain ⟨a, ha, hstep⟩ := Option.bind_eq_some_iff.1 hstep
    obtain ⟨⟨p, next⟩, hadv, heq⟩ := Option.bind_eq_some_iff.1 hstep
    cases heq
    exact h.advance ha hadv
  | published i name =>
    obtain ⟨id, -, rfl⟩ := Option.map_eq_some_iff.1 hstep
    refine h.frame (Grows.of_eq rfl rfl rfl) rfl rfl ?_ (fun it hit => Or.inl hit)
      fun a ha => Or.inl ha
    refine items_quiet h (Grows.of_eq rfl rfl rfl) ?_
    cases name <;> exact ⟨rfl, rfl, rfl⟩
  | delete id =>
    cases hstep
    exact h.frame (Grows.of_eq rfl rfl rfl) rfl rfl
      (fun it hit => Or.inl (List.mem_filter.1 hit).1) (fun it hit => Or.inl hit)
      fun a ha => Or.inl ha
  | reload =>
    cases hstep
    exact h.reload

end

/-! ## One capsule, sealed and opened -/

section
variable {A : AesGcm} {message : JsString} {unlockUnix : JsNum}
  {recipientEns senderEns : Option JsString} {reply : JsString → Reply} {keyBytes iv : List UInt8}
  {id : JsString} {now : TimeValue} {item : QueueItem}

/-- A capsule that was just sealed is the only item. -/
theorem run_sealed
    (h : sealCtrng A message unlockUnix recipientEns senderEns reply keyBytes iv id now = .ok item) :
    (app A).run (app A).init
        [.sealCtrng message unlockUnix recipientEns senderEns reply keyBytes iv id now] =
      some { State.init with
        items := [item], publishing := [item.id], known := [item.origin] } := by
  have hstep : (app A).step (app A).init
      (.sealCtrng message unlockUnix recipientEns senderEns reply keyBytes iv id now) =
      State.init.insertSealed item := by
    simp only [app, State.step, h]
  exact (Lts.run_cons _).2 ⟨_, hstep, rfl⟩

/-- A tick finds an item due, and then there is a button. -/
theorem run_ticked {item : QueueItem} {later : TimeValue} (hstatus : item.status = .sealed)
    (hdue : atMost item.unlockUnix (JsNum.divBy 1000 (ofRat later.ms)) = some true) :
    (app A).run { State.init with
      items := [item], publishing := [item.id], known := [item.origin] }
      [.render, .tick later, .render] = some { State.init with
        items := [item.patch State.toDue], view := [item.patch State.toDue],
        publishing := [item.id], known := [item.origin] } := by
  simp [Lts.run, app, State.step, State.tickLoop, State.tickItem, hstatus, hdue, updateItem]

/-- A cTRNG item comes due. -/
theorem run_due
    (h : sealCtrng A message unlockUnix recipientEns senderEns reply keyBytes iv id now = .ok item)
    {later : TimeValue}
    (hdue : atMost (.num unlockUnix) (JsNum.divBy 1000 (ofRat later.ms)) = some true) :
    (app A).run (app A).init
        [.sealCtrng message unlockUnix recipientEns senderEns reply keyBytes iv id now, .render,
          .tick later, .render] =
      some { State.init with
        items := [item.patch State.toDue], view := [item.patch State.toDue],
        publishing := [item.id], known := [item.origin] } := by
  obtain ⟨sealed, -, hcase⟩ := sealCtrng_cases h
  have hstatus : item.status = .sealed := by rw [hcase]
  have hunlock : item.unlockUnix = .num unlockUnix := by rw [hcase]
  rw [← hunlock] at hdue
  exact Lts.run_trans _ (run_sealed h) (run_ticked hstatus hdue)

/-- A drand item comes due. -/
theorem run_due_drand {round actualUnlock : JsNum} {ct : List UInt8} {later : TimeValue}
    (hdue : atMost (.num actualUnlock) (JsNum.divBy 1000 (ofRat later.ms)) = some true) :
    (app A).run (app A).init
        [.sealDrand round actualUnlock ct recipientEns senderEns id now, .render, .tick later,
          .render] =
      some { State.init with
        items := [(sealDrand round actualUnlock ct recipientEns senderEns id now).patch State.toDue]
        view := [(sealDrand round actualUnlock ct recipientEns senderEns id now).patch State.toDue]
        publishing := [id]
        known := [(sealDrand round actualUnlock ct recipientEns senderEns id now).origin] } := by
  have hsealed : (app A).run (app A).init
      [.sealDrand round actualUnlock ct recipientEns senderEns id now] =
      some { State.init with
        items := [sealDrand round actualUnlock ct recipientEns senderEns id now]
        publishing := [id]
        known := [(sealDrand round actualUnlock ct recipientEns senderEns id now).origin] } := rfl
  exact Lts.run_trans _ hsealed (run_ticked rfl hdue)

end

theorem halfSecond_bounded : |(500 : ℤ)| ≤ 8640000000000000 := by decide

theorem twoSeconds_bounded : |(2000 : ℤ)| ≤ 8640000000000000 := by decide

/-- Half a second and two seconds after the start of 1970. -/
def halfSecond : TimeValue := ⟨500, halfSecond_bounded⟩

def twoSeconds : TimeValue := ⟨2000, twoSeconds_bounded⟩

/-- A drand item that is sealed for second 1 is due in second 2. -/
def dueDrandRun (ct : List UInt8) : List Action :=
  [.sealDrand (ofRat 1) (ofRat 1) ct none none (js "a") halfSecond, .render,
    .tick twoSeconds, .render]

theorem run_dueDrandRun (A : AesGcm) (ct : List UInt8) :
    (app A).run (app A).init (dueDrandRun ct) = some { State.init with
      items := [(sealDrand (ofRat 1) (ofRat 1) ct none none (js "a") halfSecond).patch State.toDue]
      view := [(sealDrand (ofRat 1) (ofRat 1) ct none none (js "a") halfSecond).patch State.toDue]
      publishing := [js "a"]
      known := [(sealDrand (ofRat 1) (ofRat 1) ct none none (js "a") halfSecond).origin] } :=
  run_due_drand (by decide +kernel)

/-- `hi`, sealed for the start of 1970 without a beacon, comes due. -/
def dueRun : List Action :=
  [.sealCtrng (js "hi") (ofRat 0) none none (fun _ => .failed) (List.replicate 32 0)
    (List.replicate 12 0) (js "a") ⟨0, by decide⟩, .render, .tick ⟨0, by decide⟩, .render]

theorem run_dueRun : ∃ item,
    sealCtrng zeroVector (js "hi") (ofRat 0) none none (fun _ => .failed) (List.replicate 32 0)
      (List.replicate 12 0) (js "a") ⟨0, by decide⟩ = .ok item ∧
    (app zeroVector).run (app zeroVector).init dueRun = some { State.init with
      items := [item.patch State.toDue], view := [item.patch State.toDue],
      publishing := [item.id], known := [item.origin] } := by
  have hzero : ofRat 0 = .fin ⟨0, by decide +kernel⟩ := by decide +kernel
  have himports : importsKey (List.replicate 32 0) = true := by decide
  obtain ⟨item, hitem⟩ := sealCtrng_isOk zeroVector (js "hi") ⟨0, by decide +kernel⟩ none none
    (fun _ => .failed) (List.replicate 12 0) (js "a") ⟨0, by decide⟩ himports
  rw [← hzero] at hitem
  exact ⟨item, hitem, run_due hitem (by decide +kernel)⟩

/-- A reply is read far enough to see its timestamp. -/
theorem fetched_of_timestamp {reply : JsString → Reply} {x : JsNum}
    (h : (fetchLatestBeacon reply).toOption.map BeaconBlock.timestamp = some x) :
    ∃ witness, fetchLatestBeacon reply = .ok witness ∧ witness.timestamp = x := by
  cases hfetch : fetchLatestBeacon reply with
  | error e =>
    rw [hfetch] at h
    cases h
  | ok witness =>
    rw [hfetch] at h
    exact ⟨witness, rfl, Option.some.inj h⟩

/-- A block from nine seconds on. -/
def lateBlock : JsString := js "\x7b\"data\":\x7b\"sequence\":7,\"timestamp\":9,\"ctrng\":[]\x7d\x7d"

theorem fetched_lateBlock : ∃ witness, fetchLatestBeacon (replies lateBlock) = .ok witness ∧
    witness.timestamp.lt (ofRat 0) = false ∧ (ofRat 0).le witness.timestamp = true := by
  have hread : (fetchLatestBeacon (replies lateBlock)).toOption.map BeaconBlock.timestamp =
      some (ofRat 9) := by decide +kernel
  obtain ⟨witness, hfetch, hts⟩ := fetched_of_timestamp hread
  exact ⟨witness, hfetch, by rw [hts]; decide +kernel, by rw [hts]; decide +kernel⟩

end SealedSky.Web.App
