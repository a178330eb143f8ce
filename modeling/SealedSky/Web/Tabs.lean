import SealedSky.Lib.Lts
import SealedSky.Web.Queue

/-!
# Several tabs on one `localStorage` (`sealed-sky-web/src/App.tsx:45-58`)

Each tab loads the queue once, works on its own list and writes the whole list back after a change. A
change and the write that follows it are separate steps, so the steps of the tabs come in any order.

* `run_kept_iff` — no saved item is lost in a run exactly when no tab writes over an item that it has
  never seen.
-/
namespace SealedSky.Web.Tabs

open Js

/-- One tab. `seen` is no part of the app: the ids of the items that it has loaded or inserted. -/
structure Tab where
  items : List QueueItem
  seen : List JsString

/-- The tabs and what they share. `known`, `saved` and `deleted` are no part of the app: the capsules
inserted in any tab, those written by any tab, and the ids that the user has deleted. -/
structure Browser where
  tabs : ℕ → Option Tab
  stored : Option JsString
  known : List Capsule
  saved : List Capsule
  deleted : List JsString

inductive Action where
  | mount (tab : ℕ)
  | sealItem (tab : ℕ) (item : QueueItem)
  | importItem (tab : ℕ) (item : QueueItem)
  | update (tab : ℕ) (id : JsString) (patch : Patch)
  | delete (tab : ℕ) (id : JsString)
  | save (tab : ℕ)

/-- The items in the storage. -/
def load (stored : Option JsString) : List QueueItem :=
  (loadQueue stored).filterMap QueueItem.ofJson

def Tab.insert (tab : Tab) (item : QueueItem) : Tab :=
  ⟨tab.items ++ [item], tab.seen ++ [item.id]⟩

namespace Browser

def init : Browser := ⟨fun _ => none, none, [], [], []⟩

def setTab (b : Browser) (i : ℕ) (tab : Tab) : Browser :=
  { b with tabs := fun j => if j = i then some tab else b.tabs j }

/-- A new item has an id that no item had before. -/
def insert (b : Browser) (i : ℕ) (tab : Tab) (item : QueueItem) : Option Browser :=
  if item.id ∈ b.known.map Capsule.id then none
  else some { b.setTab i (tab.insert item) with known := b.known ++ [item.capsule] }

def step (b : Browser) : Action → Option Browser
  | .mount i =>
    -- also a reload: the list of the tab is built again
    let items := load b.stored
    some (b.setTab i ⟨items, items.map QueueItem.id⟩)
  | .sealItem i item => (b.tabs i).bind fun tab => b.insert i tab item
  | .importItem i item =>
    (b.tabs i).bind fun tab =>
      match findByEnvelope tab.items item.envelope with
      | some _ => some b
      | none => b.insert i tab item
  | .update i id patch =>
    (b.tabs i).map fun tab => b.setTab i { tab with items := updateItem tab.items id patch }
  | .delete i id =>
    (b.tabs i).map fun tab =>
      { b.setTab i { tab with items := tab.items.filter fun it => it.id ≠ id } with
        deleted := b.deleted ++ [id] }
  | .save i =>
    (b.tabs i).map fun tab =>
      { b with
        stored := some (saveQueue (tab.items.map QueueItem.toJson))
        saved := b.saved ++ tab.items.map QueueItem.capsule }

end Browser

def browser : Lts Browser Action := ⟨.init, Browser.step⟩

/-- Every capsule that was ever saved and not deleted is still in the storage. -/
def Kept (b : Browser) : Prop :=
  ∀ c ∈ b.saved, c.id ∉ b.deleted → ∃ it ∈ load b.stored, it.capsule = c

/-- A tab that writes has seen every item that it writes over. -/
def UpToDate (b : Browser) : Action → Prop
  | .save i => ∀ tab, b.tabs i = some tab → ∀ it ∈ load b.stored, it.id ∉ b.deleted →
      it.id ∈ tab.seen
  | _ => True

/-! ## What holds of every tab -/

/-- A tab has what it has seen, but for what was deleted. -/
structure TabInv (b : Browser) (tab : Tab) : Prop where
  known : ∀ it ∈ tab.items, it.capsule ∈ b.known
  seen : ∀ it ∈ tab.items, it.id ∈ tab.seen
  has : ∀ id ∈ tab.seen, id ∉ b.deleted → ∃ it ∈ tab.items, it.id = id

structure Inv (b : Browser) : Prop where
  stored : ∀ it ∈ load b.stored, it.capsule ∈ b.saved
  saved : ∀ c ∈ b.saved, c ∈ b.known
  unique : ∀ c ∈ b.known, ∀ c' ∈ b.known, c.id = c'.id → c = c'
  tabs : ∀ i tab, b.tabs i = some tab → TabInv b tab

theorem inv_init : Inv Browser.init := by
  refine ⟨?_, ?_, ?_, ?_⟩
  · rintro it ⟨⟩
  · rintro c ⟨⟩
  · rintro c ⟨⟩
  · rintro i tab ⟨⟩

theorem load_saved (items : List QueueItem) :
    load (some (saveQueue (items.map QueueItem.toJson))) = items.map QueueItem.reloaded :=
  loadQueue_saveQueue items

section
variable {b : Browser} {i : ℕ} {tab tab' : Tab}

/-- A tab stays good when more capsules are known and more ids deleted. -/
theorem TabInv.mono {b' : Browser} (h : TabInv b tab) (hknown : ∀ c ∈ b.known, c ∈ b'.known)
    (hdeleted : ∀ id ∈ b.deleted, id ∈ b'.deleted) : TabInv b' tab :=
  ⟨fun it hit => hknown _ (h.known it hit), h.seen,
    fun id hid hdel => h.has id hid fun hmem => hdel (hdeleted id hmem)⟩

/-- Replacing a tab by a good one keeps the invariant. -/
theorem Inv.setTab (h : Inv b) (htab : TabInv b tab) : Inv (b.setTab i tab) := by
  refine ⟨h.stored, h.saved, h.unique, fun j tab' hj => ?_⟩
  have hj : (if j = i then some tab else b.tabs j) = some tab' := hj
  split at hj
  · cases hj
    exact htab.mono (fun _ hc => hc) fun _ hid => hid
  · exact (h.tabs j tab' hj).mono (fun _ hc => hc) fun _ hid => hid

theorem inv_mount (h : Inv b) :
    TabInv b ⟨load b.stored, (load b.stored).map QueueItem.id⟩ := by
  refine ⟨fun it hit => h.saved _ (h.stored it hit), fun it hit => List.mem_map_of_mem hit,
    fun id hid _ => ?_⟩
  obtain ⟨it, hit, heq⟩ := List.mem_map.1 hid
  exact ⟨it, hit, heq⟩

theorem inv_insert {b' : Browser} {item : QueueItem} (h : Inv b) (htab : b.tabs i = some tab)
    (hstep : b.insert i tab item = some b') : Inv b' := by
  unfold Browser.insert at hstep
  split at hstep
  · cases hstep
  · rename_i hfresh
    cases hstep
    have hold := h.tabs i tab htab
    have hne : ∀ c ∈ b.known, c.id ≠ item.id := fun c hc heq =>
      hfresh (List.mem_map.2 ⟨c, hc, heq⟩)
    refine ⟨h.stored, fun c hc => List.mem_append_left _ (h.saved c hc), ?_, ?_⟩
    · exact unique_append h.unique hne
    · have hnew : TabInv { b.setTab i (tab.insert item) with
          known := b.known ++ [item.capsule] } (tab.insert item) := by
        refine ⟨fun it hit => ?_, fun it hit => ?_, fun id hid hdel => ?_⟩
        · rcases List.mem_append.1 hit with hit | hit
          · exact List.mem_append_left _ (hold.known it hit)
          · rw [List.mem_singleton.1 hit]
            exact List.mem_append_right _ (List.mem_singleton_self _)
        · rcases List.mem_append.1 hit with hit | hit
          · exact List.mem_append_left _ (hold.seen it hit)
          · rw [List.mem_singleton.1 hit]
            exact List.mem_append_right _ (List.mem_singleton_self _)
        · rcases List.mem_append.1 hid with hid | hid
          · obtain ⟨it, hit, heq⟩ := hold.has id hid hdel
            exact ⟨it, List.mem_append_left _ hit, heq⟩
          · exact ⟨item, List.mem_append_right _ (List.mem_singleton_self _),
              (List.mem_singleton.1 hid).symm⟩
      intro j tab' hj
      have hj : (if j = i then some (tab.insert item) else b.tabs j) = some tab' := hj
      split at hj
      · cases hj
        exact hnew
      · exact (h.tabs j tab' hj).mono (fun _ hc => List.mem_append_left _ hc) fun _ hid => hid

theorem inv_update {id : JsString} {patch : Patch} (htab : TabInv b tab) :
    TabInv b { tab with items := updateItem tab.items id patch } := by
  have hcapsules := updateItem_capsules tab.items id patch
  -- the patched items have the capsules of the items before
  have hmem : ∀ c, c ∈ (updateItem tab.items id patch).map QueueItem.capsule ↔
      c ∈ tab.items.map QueueItem.capsule := fun c => by rw [hcapsules]
  refine ⟨fun it hit => ?_, fun it hit => ?_, fun i hi hdel => ?_⟩
  · obtain ⟨it', hit', heq⟩ := List.mem_map.1 ((hmem it.capsule).1 (List.mem_map_of_mem hit))
    exact heq ▸ htab.known it' hit'
  · obtain ⟨it', hit', heq⟩ := List.mem_map.1 ((hmem it.capsule).1 (List.mem_map_of_mem hit))
    have hid : it'.id = it.id := congrArg Capsule.id heq
    exact hid ▸ htab.seen it' hit'
  · obtain ⟨it, hit, rfl⟩ := htab.has i hi hdel
    obtain ⟨it', hit', heq⟩ := List.mem_map.1 ((hmem it.capsule).2 (List.mem_map_of_mem hit))
    exact ⟨it', hit', congrArg Capsule.id heq⟩

theorem inv_delete {id : JsString} (h : Inv b) (htab : TabInv b tab) :
    Inv { b.setTab i { tab with items := tab.items.filter fun it => it.id ≠ id } with
      deleted := b.deleted ++ [id] } := by
  refine ⟨h.stored, h.saved, h.unique, fun j tab' hj => ?_⟩
  have hj : (if j = i then some { tab with items := tab.items.filter fun it => it.id ≠ id }
    else b.tabs j) = some tab' := hj
  split at hj
  · cases hj
    refine ⟨fun it hit => htab.known it (List.mem_filter.1 hit).1,
      fun it hit => htab.seen it (List.mem_filter.1 hit).1, fun i hi hdel => ?_⟩
    have hne : i ≠ id := by
      rintro rfl
      exact hdel (List.mem_append_right _ (List.mem_singleton_self _))
    obtain ⟨it, hit, rfl⟩ := htab.has i hi fun hmem => hdel (List.mem_append_left _ hmem)
    exact ⟨it, List.mem_filter.2 ⟨hit, by simpa using hne⟩, rfl⟩
  · exact (h.tabs j tab' hj).mono (fun _ hc => hc) fun _ hid => List.mem_append_left _ hid

theorem inv_save (h : Inv b) (htab : TabInv b tab) :
    Inv { b with
      stored := some (saveQueue (tab.items.map QueueItem.toJson))
      saved := b.saved ++ tab.items.map QueueItem.capsule } := by
  refine ⟨fun it hit => ?_, fun c hc => ?_, h.unique, fun j tab' hj =>
    (h.tabs j tab' hj).mono (fun _ hc => hc) fun _ hid => hid⟩
  · rw [load_saved] at hit
    obtain ⟨it', hit', rfl⟩ := List.mem_map.1 hit
    rw [QueueItem.reloaded_capsule]
    exact List.mem_append_right _ (List.mem_map_of_mem hit')
  · rcases List.mem_append.1 hc with hc | hc
    · exact h.saved c hc
    · obtain ⟨it, hit, rfl⟩ := List.mem_map.1 hc
      exact htab.known it hit

end

theorem step_inv (b : Browser) (a : Action) (b' : Browser) (h : Inv b)
    (hstep : b.step a = some b') : Inv b' := by
  cases a with
  | mount i =>
    cases hstep
    exact h.setTab (inv_mount h)
  | sealItem i item =>
    obtain ⟨tab, htab, hstep⟩ := Option.bind_eq_some_iff.1 hstep
    exact inv_insert h htab hstep
  | importItem i item =>
    obtain ⟨tab, htab, hstep⟩ := Option.bind_eq_some_iff.1 hstep
    split at hstep
    · cases hstep
      exact h
    · exact inv_insert h htab hstep
  | update i id patch =>
    obtain ⟨tab, htab, rfl⟩ := Option.map_eq_some_iff.1 hstep
    exact h.setTab (inv_update (h.tabs i tab htab))
  | delete i id =>
    obtain ⟨tab, htab, rfl⟩ := Option.map_eq_some_iff.1 hstep
    exact inv_delete h (h.tabs i tab htab)
  | save i =>
    obtain ⟨tab, htab, rfl⟩ := Option.map_eq_some_iff.1 hstep
    exact inv_save h (h.tabs i tab htab)

/-! ## What a save loses -/

section
variable {b b' : Browser}

/-- Only a save can lose an item, and it does when the tab has not seen it. -/
theorem step_kept_iff {a : Action} (h : Inv b) (hkept : Kept b) (hstep : b.step a = some b') :
    Kept b' ↔ UpToDate b a := by
  have hsame : b'.stored = b.stored → b'.saved = b.saved → (∀ id ∈ b.deleted, id ∈ b'.deleted) →
      Kept b' := by
    intro hstored hsaved hdeleted c hc hdel
    rw [hstored]
    exact hkept c (hsaved ▸ hc) fun hmem => hdel (hdeleted _ hmem)
  have hinsert : ∀ {i : ℕ} {tab : Tab} {item : QueueItem}, b.insert i tab item = some b' →
      Kept b' := by
    intro i tab item hstep
    unfold Browser.insert at hstep
    split at hstep
    · cases hstep
    · cases hstep
      exact hsame rfl rfl fun _ hid => hid
  cases a with
  | mount i =>
    cases hstep
    exact iff_of_true (hsame rfl rfl fun _ hid => hid) trivial
  | sealItem i item =>
    obtain ⟨tab, htab, hstep⟩ := Option.bind_eq_some_iff.1 hstep
    exact iff_of_true (hinsert hstep) trivial
  | importItem i item =>
    obtain ⟨tab, htab, hstep⟩ := Option.bind_eq_some_iff.1 hstep
    split at hstep
    · cases hstep
      exact iff_of_true hkept trivial
    · exact iff_of_true (hinsert hstep) trivial
  | update i id patch =>
    obtain ⟨tab, htab, rfl⟩ := Option.map_eq_some_iff.1 hstep
    exact iff_of_true (hsame rfl rfl fun _ hid => hid) trivial
  | delete i id =>
    obtain ⟨tab, htab, rfl⟩ := Option.map_eq_some_iff.1 hstep
    exact iff_of_true (hsame rfl rfl fun _ hid => List.mem_append_left _ hid) trivial
  | save i =>
    obtain ⟨tab, htab, rfl⟩ := Option.map_eq_some_iff.1 hstep
    have hgood := h.tabs i tab htab
    have hload := load_saved tab.items
    constructor
    · intro hkept' tab' htab' it hit hdel
      obtain rfl : tab' = tab := Option.some.inj (htab'.symm.trans htab)
      obtain ⟨it', hit', heq⟩ := hkept' it.capsule (List.mem_append_left _ (h.stored it hit)) hdel
      rw [hload] at hit'
      obtain ⟨it'', hit'', rfl⟩ := List.mem_map.1 hit'
      have hid : it''.id = it.id := congrArg Capsule.id heq
      exact hid ▸ hgood.seen it'' hit''
    · intro hup c hc hdel
      have hhas : ∃ it ∈ tab.items, it.capsule = c := by
        rcases List.mem_append.1 hc with hc | hc
        · obtain ⟨it, hit, rfl⟩ := hkept c hc hdel
          obtain ⟨it', hit', hid⟩ := hgood.has it.id (hup tab htab it hit hdel) hdel
          exact ⟨it', hit', h.unique _ (hgood.known it' hit') _ (h.saved _ hc) hid⟩
        · exact List.mem_map.1 hc
      obtain ⟨it, hit, rfl⟩ := hhas
      refine ⟨it.reloaded, ?_, rfl⟩
      rw [hload]
      exact List.mem_map_of_mem hit

/-- **No saved item is lost in a run** exactly when no tab writes over an item that it has never
seen. -/
theorem run_kept_iff {as : List Action} (hrun : browser.run Browser.init as = some b) :
    browser.Always Kept Browser.init as ↔ browser.Meets UpToDate Browser.init as := by
  have hkept : Kept Browser.init := by
    rintro c ⟨⟩
  refine Lts.always_iff_meets (I := fun b => Inv b ∧ Kept b) (fun _ h => h.2) ?_ ?_
    ⟨inv_init, hkept⟩ hrun
  · rintro b a b' ⟨hinv, hkept⟩ hstep hseen
    exact ⟨step_inv b a b' hinv hstep, (step_kept_iff hinv hkept hstep).2 hseen⟩
  · rintro b a b' ⟨hinv, hkept⟩ hstep hkept'
    exact (step_kept_iff hinv hkept hstep).1 hkept'

end

/-- The second tab is opened when the first has saved, and seals an item too. -/
def secondTab : List Action :=
  [.mount 0, .sealItem 0 sealedItem, .save 0, .mount 1,
    .sealItem 1 { sealedItem with id := js "b" }, .save 1]

theorem run_kept_second_tab : ∃ b, browser.run Browser.init secondTab = some b ∧
    sealedItem.capsule ∈ b.saved ∧ ({ sealedItem with id := js "b" } : QueueItem).capsule ∈ b.saved ∧
    (browser.Always Kept Browser.init secondTab ↔
      browser.Meets UpToDate Browser.init secondTab) :=
  ⟨_, rfl, List.mem_append_left _ (List.mem_singleton_self _),
    List.mem_append_right _ (List.mem_map_of_mem
      (List.mem_append_right _ (List.mem_singleton_self _))), run_kept_iff rfl⟩

/-- Two tabs are opened on an empty storage, and each seals an item. -/
theorem run_lost_two_tabs : ∃ b, browser.run Browser.init
      [.mount 0, .mount 1, .sealItem 0 sealedItem, .save 0,
        .sealItem 1 { sealedItem with id := js "b" }, .save 1] = some b ∧
    sealedItem.capsule ∈ b.saved ∧ b.deleted = [] ∧
    (∀ it ∈ load b.stored, it.capsule ≠ sealedItem.capsule) ∧ ¬ Kept b := by
  have hload := load_saved [{ sealedItem with id := js "b" }]
  have hlost : ∀ it ∈ load (some (saveQueue ([{ sealedItem with id := js "b" }].map
      QueueItem.toJson))), it.capsule ≠ sealedItem.capsule := by
    rw [hload]
    intro it hit
    rw [List.map_singleton, List.mem_singleton] at hit
    rw [hit]
    decide
  refine ⟨_, rfl, List.mem_append_left _ (List.mem_singleton_self _), rfl, hlost, fun hkept => ?_⟩
  obtain ⟨it, hit, heq⟩ := hkept sealedItem.capsule
    (List.mem_append_left _ (List.mem_singleton_self _)) (List.not_mem_nil)
  exact hlost it hit heq

end SealedSky.Web.Tabs
