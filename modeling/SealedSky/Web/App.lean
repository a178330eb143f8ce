import SealedSky.Lib.Lts
import SealedSky.Web.Import
import SealedSky.Web.Sealing
import SealedSky.Web.Tabs
import SealedSky.Web.Unseal

/-!
# The app in one tab (`sealed-sky-web/src/App.tsx`)

The queue is React state: `setItems` patches the current list, while ticks and clicks decide on the list
of the last render. Attempts to unseal and publishes run in the background, each step of them an action of
its own, so a run is any interleaving of them with renders, saves, deletes and reloads.

* `mem_patchItems` — what a patch leaves of the list.
* `tickLoop_inv` — what one round of the loop of `tick` preserves, a tick preserves.
-/
namespace SealedSky.Web

open Js

/-- What an item is made with and keeps also through a reload. -/
structure Origin where
  id : JsString
  backend : Backend
  envelope : JsString
  ctrngKeyB64 : Option JsString
  deriving DecidableEq

def QueueItem.origin (it : QueueItem) : Origin := ⟨it.id, it.backend, it.envelope, it.ctrngKeyB64⟩

namespace App

/-- A running `tryUnseal`, on the item as it was when it began. -/
structure Attempt where
  item : QueueItem
  stage : Stage

/-- The state of a tab, and the `localStorage` that only this tab writes. `view` is the list of the last
render, `publishing` has the ids that a `publishToNameStone` is running for. `known`, `fetched` and
`loaded` are no part of the app: what was ever inserted, the block that an attempt for an id has fetched,
and the ids of items that were read back from the storage. -/
structure State where
  items : List QueueItem
  view : List QueueItem
  stored : Option JsString
  inFlight : List JsString
  attempts : List Attempt
  publishing : List JsString
  known : List Origin
  fetched : List (JsString × BeaconBlock)
  loaded : List JsString

inductive Action where
  | render
  | save
  | sealDrand (round actualUnlock : JsNum) (ct : List UInt8)
      (recipientEns senderEns : Option JsString) (newId : JsString) (now : TimeValue)
  | sealCtrng (message : JsString) (unlockUnix : JsNum) (recipientEns senderEns : Option JsString)
      (reply : JsString → Reply) (keyBytes iv : List UInt8) (newId : JsString) (now : TimeValue)
  | importLink (page : Page) (readEnsText : JsString → JsString → Option JsString)
      (timeAt : JsValue → Result JsValue) (now : TimeValue) (newId : JsString)
  | tick (now : TimeValue)
  | click (id : JsString)
  | advance (i : ℕ) (outcome : Outcome)
  | published (i : ℕ) (name : Except JsString JsString)
  | delete (id : JsString)
  | reload

/-- `updateItem`, where there is a patch. -/
def patchItems (items : List QueueItem) (id : JsString) : Option Patch → List QueueItem
  | none => items
  | some p => updateItem items id p

namespace State

def init : State := ⟨[], [], none, [], [], [], [], [], []⟩

/-- No item had the id before. -/
def isFresh (s : State) (id : JsString) : Bool := s.known.all fun o => o.id != id

/-- A sealed item, and the publish that starts with it. -/
def insertSealed (s : State) (item : QueueItem) : Option State :=
  if s.isFresh item.id then
    some { s with
      items := s.items ++ [item]
      publishing := s.publishing ++ [item.id]
      known := s.known ++ [item.origin] }
  else none

def insertImport (s : State) (item : QueueItem) : Option State :=
  if s.isFresh item.id then
    some { s with
      items := insertImported s.items item
      known := s.known ++ [item.origin] }
  else none

/-- App.tsx:321, up to its first `await`. -/
def tryUnseal (s : State) (item : QueueItem) : State :=
  if s.inFlight.contains item.id then s
  else { s with
    items := patchItems s.items item.id (start item).1
    inFlight := s.inFlight ++ [item.id]
    attempts := s.attempts ++ [⟨item, (start item).2⟩] }

def toDue : Patch := { status := some .ready }

/-- The body of the loop of `tick`, `none` where a comparison throws. -/
def tickItem (tSec : JsNum) (s : State) (it : QueueItem) : Option State :=
  match it.status with
  | .sealed => (atMost it.unlockUnix tSec).map fun due =>
      if due then { s with items := updateItem s.items it.id toDue } else s
  | .ready => (atMost it.unlockUnix tSec).map fun due => if due then s.tryUnseal it else s
  | _ => some s

/-- App.tsx:339. What throws ends the loop. -/
def tickLoop (tSec : JsNum) : State → List QueueItem → State
  | s, [] => s
  | s, it :: rest =>
    match s.tickItem tSec it with
    | none => s
    | some s' => tickLoop tSec s' rest

/-- An attempt that waits again, or the `finally` of App.tsx:333. -/
def afterAdvance (s : State) (i : ℕ) (a : Attempt) (o : Outcome) (p : Option Patch)
    (next : Option Stage) : State :=
  let s' := { s with
    items := patchItems s.items a.item.id p
    fetched := s.fetched ++ (fetchedBy a.stage o).toList.map fun b => (a.item.id, b) }
  match next with
  | some st => { s' with attempts := s.attempts.set i ⟨a.item, st⟩ }
  | none => { s' with
      attempts := s.attempts.eraseIdx i
      inFlight := s.inFlight.filter fun id => id ≠ a.item.id }

/-- The patches of App.tsx:164-170. -/
def publishPatch : Except JsString JsString → Patch
  | .ok fqn => { capsuleEns := some fqn, capsulePublishError := some none }
  | .error message => { capsulePublishError := some (some message) }

/-- A new page on the same storage: the background work is gone. -/
def reload (s : State) : State :=
  let items := Tabs.load s.stored
  { s with
    items := items
    view := items
    inFlight := []
    attempts := []
    publishing := []
    loaded := s.loaded ++ items.map QueueItem.id }

def step (A : AesGcm) (s : State) : Action → Option State
  | .render => some { s with view := s.items }
  | .save => some { s with stored := some (saveQueue (s.view.map QueueItem.toJson)) }
  | .sealDrand round actualUnlock ct recipientEns senderEns newId now =>
    s.insertSealed (sealDrand round actualUnlock ct recipientEns senderEns newId now)
  | .sealCtrng message unlockUnix recipientEns senderEns reply keyBytes iv newId now =>
    match sealCtrng A message unlockUnix recipientEns senderEns reply keyBytes iv newId now with
    | .error _ => some s
    | .ok item => s.insertSealed item
  | .importLink page readEnsText timeAt now newId =>
    match importLink page readEnsText timeAt now newId with
    | .ok (some item) => s.insertImport item
    | _ => some s
  | .tick now => some (s.tickLoop (JsNum.divBy 1000 (ofRat now.ms)) s.view)
  | .click id =>
    match s.view.find? fun it => it.id = id with
    | none => some s
    | some it => some (s.tryUnseal it)
  | .advance i o => do
    let a ← s.attempts[i]?
    let (p, next) ← advance A a.item a.stage o
    some (s.afterAdvance i a o p next)
  | .published i name => (s.publishing[i]?).map fun id =>
      { s with
        items := updateItem s.items id (publishPatch name)
        publishing := s.publishing.eraseIdx i }
  | .delete id => some { s with items := s.items.filter fun it => it.id ≠ id }
  | .reload => some s.reload

end State

def app (A : AesGcm) : Lts State Action := ⟨.init, State.step A⟩

/-! ## Ids, lists and ticks -/

theorem isFresh_iff {s : State} {id : JsString} :
    s.isFresh id = true ↔ ∀ o ∈ s.known, o.id ≠ id := by
  rw [State.isFresh, List.all_eq_true]
  simp only [bne_iff_ne]

theorem mem_updateItem {items : List QueueItem} {id : JsString} {p : Patch} {it : QueueItem}
    (h : it ∈ updateItem items id p) :
    it ∈ items ∨ ∃ it' ∈ items, it'.id = id ∧ it = it'.patch p := by
  obtain ⟨it', hit', heq⟩ := List.mem_map.1 h
  by_cases hid : it'.id = id
  · rw [if_pos hid] at heq
    exact Or.inr ⟨it', hit', hid, heq.symm⟩
  · rw [if_neg hid] at heq
    exact Or.inl (heq ▸ hit')

/-- What a patch leaves of the list. -/
theorem mem_patchItems {items : List QueueItem} {id : JsString} {p : Option Patch} {it : QueueItem}
    (h : it ∈ patchItems items id p) :
    it ∈ items ∨ ∃ it' ∈ items, ∃ q, p = some q ∧ it'.id = id ∧ it = it'.patch q := by
  cases p with
  | none => exact Or.inl h
  | some q =>
    rcases mem_updateItem h with h | ⟨it', hit', hid, heq⟩
    · exact Or.inl h
    · exact Or.inr ⟨it', hit', q, rfl, hid, heq⟩

theorem mem_insertImported {items : List QueueItem} {item it : QueueItem}
    (h : it ∈ insertImported items item) : it ∈ items ∨ it = item := by
  unfold insertImported at h
  split at h
  · exact Or.inl h
  · exact (List.mem_append.1 h).imp_right List.mem_singleton.1

/-- The items that a tick does something about, up to the first that makes it throw. -/
def dueItems (tSec : JsNum) : List QueueItem → List QueueItem
  | [] => []
  | it :: rest =>
    if it.status = .sealed ∨ it.status = .ready then
      match atMost it.unlockUnix tSec with
      | none => []
      | some true => it :: dueItems tSec rest
      | some false => dueItems tSec rest
    else dueItems tSec rest

theorem mem_dueItems {tSec : JsNum} {its : List QueueItem} {it : QueueItem}
    (h : it ∈ dueItems tSec its) : it ∈ its := by
  induction its with
  | nil => exact h
  | cons it' its ih =>
    rw [dueItems] at h
    split at h
    · split at h
      · cases h
      · rcases List.mem_cons.1 h with rfl | h
        · exact List.mem_cons_self
        · exact List.mem_cons_of_mem _ (ih h)
      · exact List.mem_cons_of_mem _ (ih h)
    · exact List.mem_cons_of_mem _ (ih h)

/-- What a tick does about an item that is due. -/
def State.meetDue (s : State) (it : QueueItem) : State :=
  if it.status = .sealed then { s with items := updateItem s.items it.id State.toDue }
  else s.tryUnseal it

theorem tickLoop_eq (tSec : JsNum) (its : List QueueItem) (s : State) :
    s.tickLoop tSec its = (dueItems tSec its).foldl State.meetDue s := by
  induction its generalizing s with
  | nil => rfl
  | cons it its ih =>
    rw [State.tickLoop, dueItems]
    by_cases hwaits : it.status = .sealed ∨ it.status = .ready
    · rw [if_pos hwaits]
      rcases hwaits with hst | hst
      · cases hdue : atMost it.unlockUnix tSec with
        | none => simp [State.tickItem, hst, hdue]
        | some due =>
          cases due with
          | true => simp [State.tickItem, hst, hdue, State.meetDue, ih]
          | false => simp [State.tickItem, hst, hdue, ih]
      · cases hdue : atMost it.unlockUnix tSec with
        | none => simp [State.tickItem, hst, hdue]
        | some due =>
          cases due with
          | true => simp [State.tickItem, hst, hdue, State.meetDue, ih]
          | false => simp [State.tickItem, hst, hdue, ih]
    · rw [if_neg hwaits]
      have hidle : s.tickItem tSec it = some s := by
        cases hst : it.status <;> simp_all [State.tickItem]
      rw [hidle]
      exact ih s

/-- What one round of the loop preserves, a tick preserves. -/
theorem tickLoop_inv {P : State → Prop} {tSec : JsNum} {its : List QueueItem}
    (hdue : ∀ s, ∀ it ∈ dueItems tSec its, it.status = .sealed → P s →
      P { s with items := updateItem s.items it.id State.toDue })
    (hunseal : ∀ s, ∀ it ∈ dueItems tSec its, it.status ≠ .sealed → P s → P (s.tryUnseal it))
    {s : State} (hs : P s) : P (s.tickLoop tSec its) := by
  rw [tickLoop_eq]
  refine List.foldlRecOn _ _ hs fun s hs it hit => ?_
  unfold State.meetDue
  split
  · rename_i hst
    exact hdue s it hit hst hs
  · rename_i hst
    exact hunseal s it hit hst hs

end App

end SealedSky.Web
