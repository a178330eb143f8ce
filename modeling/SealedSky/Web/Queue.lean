import SealedSky.Js.IsJson
import SealedSky.Js.JsonRoundtrip

/-!
# The queue of capsules (`sealed-sky-web/src/lib/queue.ts`)

The queue lives in `localStorage` as JSON text. `loadQueue` trusts what is stored there to be an array
of items and migrates each of them; `App` writes the loaded items back as soon as it mounts.

* `loadQueue_saveQueue` — what the app itself has stored is loaded item by item.
* `mount_keeps_iff` — mounting keeps the well-formed items of a stored array exactly when no `null`
  stands among its elements.
-/
namespace SealedSky.Web

open Js

/-- lib/backend.ts:1. -/
inductive Backend where
  | drand
  | ctrng
  deriving DecidableEq

def Backend.text : Backend → JsString
  | .drand => js "drand"
  | .ctrng => js "ctrng"

/-- queue.ts:3. -/
inductive ItemStatus where
  | sealed
  | ready
  | unsealing
  | unsealed
  | error
  deriving DecidableEq

def ItemStatus.text : ItemStatus → JsString
  | .sealed => js "sealed"
  | .ready => js "ready"
  | .unsealing => js "unsealing"
  | .unsealed => js "unsealed"
  | .error => js "error"

/-- queue.ts:5. What an envelope or a beacon block brings in is not checked for its type, so it is any
value, `undefined` where there is none. -/
structure QueueItem where
  id : JsString
  backend : Backend
  envelope : JsString
  unlockUnix : JsValue
  createdAt : JsValue
  status : ItemStatus
  plaintext : Option JsString := none
  error : Option JsString := none
  round : JsValue := .undefined
  ctrngKeyB64 : Option JsString := none
  ctrngTargetSequence : JsValue := .undefined
  ctrngWitnessSequence : JsValue := .undefined
  ctrngWitnessTimestamp : JsValue := .undefined
  ctrngWitnessValue : JsValue := .undefined
  ctrngWitnessUrl : Option JsString := none
  senderEns : Option JsString := none
  recipientEns : Option JsString := none
  capsuleEns : Option JsString := none
  capsulePublishError : Option JsString := none

/-- The properties of an item. -/
inductive Field where
  | id | backend | envelope | unlockUnix | createdAt | status | plaintext | error | round
  | ctrngKeyB64 | ctrngTargetSequence | ctrngWitnessSequence | ctrngWitnessTimestamp
  | ctrngWitnessValue | ctrngWitnessUrl | senderEns | recipientEns | capsuleEns
  | capsulePublishError
  deriving DecidableEq

namespace Field

def name : Field → JsString
  | id => js "id"
  | backend => js "backend"
  | envelope => js "envelope"
  | unlockUnix => js "unlock_unix"
  | createdAt => js "created_at"
  | status => js "status"
  | plaintext => js "plaintext"
  | error => js "error"
  | round => js "round"
  | ctrngKeyB64 => js "ctrng_key_b64"
  | ctrngTargetSequence => js "ctrng_target_sequence"
  | ctrngWitnessSequence => js "ctrng_witness_sequence"
  | ctrngWitnessTimestamp => js "ctrng_witness_timestamp"
  | ctrngWitnessValue => js "ctrng_witness_value"
  | ctrngWitnessUrl => js "ctrng_witness_url"
  | senderEns => js "sender_ens"
  | recipientEns => js "recipient_ens"
  | capsuleEns => js "capsule_ens"
  | capsulePublishError => js "capsule_publish_error"

def all : List Field :=
  [id, backend, envelope, unlockUnix, createdAt, status, plaintext, error, round, ctrngKeyB64,
    ctrngTargetSequence, ctrngWitnessSequence, ctrngWitnessTimestamp, ctrngWitnessValue,
    ctrngWitnessUrl, senderEns, recipientEns, capsuleEns, capsulePublishError]

theorem mem_all (f : Field) : f ∈ all := by
  cases f <;> decide

theorem names_nodup : (all.map name).Nodup := by decide

theorem name_injective {f g : Field} (h : f.name = g.name) : f = g := by
  exact List.inj_on_of_nodup_map names_nodup (mem_all f) (mem_all g) h

end Field

/-! ## Items as JSON -/

def optional : Option JsString → JsValue
  | none => .undefined
  | some s => .str s

namespace QueueItem

/-- `it[f]`. -/
def value (it : QueueItem) : Field → JsValue
  | .id => .str it.id
  | .backend => .str it.backend.text
  | .envelope => .str it.envelope
  | .unlockUnix => it.unlockUnix
  | .createdAt => it.createdAt
  | .status => .str it.status.text
  | .plaintext => optional it.plaintext
  | .error => optional it.error
  | .round => it.round
  | .ctrngKeyB64 => optional it.ctrngKeyB64
  | .ctrngTargetSequence => it.ctrngTargetSequence
  | .ctrngWitnessSequence => it.ctrngWitnessSequence
  | .ctrngWitnessTimestamp => it.ctrngWitnessTimestamp
  | .ctrngWitnessValue => it.ctrngWitnessValue
  | .ctrngWitnessUrl => optional it.ctrngWitnessUrl
  | .senderEns => optional it.senderEns
  | .recipientEns => optional it.recipientEns
  | .capsuleEns => optional it.capsuleEns
  | .capsulePublishError => optional it.capsulePublishError

def toJson (it : QueueItem) : JsValue := .obj (Field.all.map fun f => (f.name, it.value f))

end QueueItem

def readBackend (v : JsValue) : Option Backend :=
  v.str?.bind fun s =>
    if s = Backend.drand.text then some .drand
    else if s = Backend.ctrng.text then some .ctrng
    else none

def readStatus (v : JsValue) : Option ItemStatus :=
  v.str?.bind fun s =>
    [ItemStatus.sealed, .ready, .unsealing, .unsealed, .error].find? fun st => st.text = s

def readOptional : JsValue → Option (Option JsString)
  | .undefined => some none
  | .str s => some (some s)
  | _ => none

/-- The item that an object is, if its properties have the types of an item. -/
def QueueItem.ofJson (v : JsValue) : Option QueueItem := do
  let id ← (v.get Field.id.name).str?
  let backend ← readBackend (v.get Field.backend.name)
  let envelope ← (v.get Field.envelope.name).str?
  let status ← readStatus (v.get Field.status.name)
  let plaintext ← readOptional (v.get Field.plaintext.name)
  let error ← readOptional (v.get Field.error.name)
  let ctrngKeyB64 ← readOptional (v.get Field.ctrngKeyB64.name)
  let ctrngWitnessUrl ← readOptional (v.get Field.ctrngWitnessUrl.name)
  let senderEns ← readOptional (v.get Field.senderEns.name)
  let recipientEns ← readOptional (v.get Field.recipientEns.name)
  let capsuleEns ← readOptional (v.get Field.capsuleEns.name)
  let capsulePublishError ← readOptional (v.get Field.capsulePublishError.name)
  some
    { id, backend, envelope, status, plaintext, error, ctrngKeyB64, ctrngWitnessUrl, senderEns,
      recipientEns, capsuleEns, capsulePublishError
      unlockUnix := v.get Field.unlockUnix.name
      createdAt := v.get Field.createdAt.name
      round := v.get Field.round.name
      ctrngTargetSequence := v.get Field.ctrngTargetSequence.name
      ctrngWitnessSequence := v.get Field.ctrngWitnessSequence.name
      ctrngWitnessTimestamp := v.get Field.ctrngWitnessTimestamp.name
      ctrngWitnessValue := v.get Field.ctrngWitnessValue.name }

/-! ## Loading and saving -/

def indexKey (i : ℕ) : JsString := digitUnits (if i = 0 then [0] else digitsOf i)

/-- The own properties that `{ ...v }` copies. -/
def ownProps : JsValue → List (JsString × JsValue)
  | .obj ps => ps
  | .arr vs => vs.mapIdx fun i v => (indexKey i, v)
  | .str s => s.mapIdx fun i u => (indexKey i, .str [u])
  | _ => []

/-- `v ?? w`. -/
def nullish (v w : JsValue) : JsValue :=
  match v with
  | .undefined => w
  | .null => w
  | v => v

/-- The properties of `migrated` (queue.ts:45). -/
def migrateProps (ps : List (JsString × JsValue)) : List (JsString × JsValue) :=
  let rest := ps.filter fun p => p.1 ≠ js "preview"
  let migrated :=
    setProp rest Field.backend.name
      (nullish (lookup rest Field.backend.name) (.str Backend.drand.text))
  if (lookup migrated Field.status.name).str? = some ItemStatus.unsealing.text then
    setProp migrated Field.status.name (.str ItemStatus.ready.text)
  else migrated

/-- The migration of one element (queue.ts:42). Neither `null` nor `undefined` can be destructured. -/
def migrate : JsValue → Option JsValue
  | .undefined => none
  | .null => none
  | v => some (.obj (migrateProps (ownProps v)))

/-- queue.ts:37, on what `localStorage` has under the key of the queue. Whatever throws in there, the
queue is empty. -/
def loadQueue : Option JsString → List JsValue
  | none => []
  | some raw =>
    if raw = [] then []
    else
      match parse raw with
      | some (.arr vs) => (vs.mapM migrate).getD []
      | _ => []

/-- queue.ts:56: what is under the key afterwards. -/
def saveQueue (items : List JsValue) : JsString := jsonText (.arr items)

/-- queue.ts:69. -/
def findByEnvelope (items : List QueueItem) (envelope : JsString) : Option QueueItem :=
  items.find? fun it => it.envelope = envelope

/-! ## Updates -/

/-- What is patched of an item (App.tsx:142): the properties that a patch names, an optional one also
with `undefined`. -/
structure Patch where
  status : Option ItemStatus := none
  plaintext : Option JsString := none
  error : Option (Option JsString) := none
  ctrngWitnessSequence : Option JsValue := none
  ctrngWitnessTimestamp : Option JsValue := none
  ctrngWitnessValue : Option JsValue := none
  ctrngWitnessUrl : Option JsString := none
  capsuleEns : Option JsString := none
  capsulePublishError : Option (Option JsString) := none

/-- `{ ...it, ...patch }`. -/
def QueueItem.patch (it : QueueItem) (p : Patch) : QueueItem :=
  { it with
    status := p.status.getD it.status
    plaintext := p.plaintext.or it.plaintext
    error := p.error.getD it.error
    ctrngWitnessSequence := p.ctrngWitnessSequence.getD it.ctrngWitnessSequence
    ctrngWitnessTimestamp := p.ctrngWitnessTimestamp.getD it.ctrngWitnessTimestamp
    ctrngWitnessValue := p.ctrngWitnessValue.getD it.ctrngWitnessValue
    ctrngWitnessUrl := p.ctrngWitnessUrl.or it.ctrngWitnessUrl
    capsuleEns := p.capsuleEns.or it.capsuleEns
    capsulePublishError := p.capsulePublishError.getD it.capsulePublishError }

/-- App.tsx:142. -/
def updateItem (items : List QueueItem) (id : JsString) (p : Patch) : List QueueItem :=
  items.map fun it => if it.id = id then it.patch p else it

/-- What opens an item, and what names it. -/
structure Capsule where
  id : JsString
  envelope : JsString
  ctrngKeyB64 : Option JsString
  deriving DecidableEq

def QueueItem.capsule (it : QueueItem) : Capsule := ⟨it.id, it.envelope, it.ctrngKeyB64⟩

@[simp] theorem QueueItem.patch_capsule (it : QueueItem) (p : Patch) :
    (it.patch p).capsule = it.capsule := rfl

/-- Elements that differ in `f` go on to do so after one that differs from them all. -/
theorem unique_append {α β : Type} {f : α → β} {l : List α} {a : α}
    (h : ∀ x ∈ l, ∀ y ∈ l, f x = f y → x = y) (hne : ∀ x ∈ l, f x ≠ f a) :
    ∀ x ∈ l ++ [a], ∀ y ∈ l ++ [a], f x = f y → x = y := by
  intro x hx y hy heq
  rcases List.mem_append.1 hx with hx | hx
  · rcases List.mem_append.1 hy with hy | hy
    · exact h x hx y hy heq
    · rw [List.mem_singleton.1 hy] at heq
      exact absurd heq (hne x hx)
  · rcases List.mem_append.1 hy with hy | hy
    · rw [List.mem_singleton.1 hx] at heq
      exact absurd heq.symm (hne y hy)
    · rw [List.mem_singleton.1 hx, List.mem_singleton.1 hy]

/-- What no patch changes, no patches change. -/
theorem QueueItem.foldl_patch {α : Type} {f : QueueItem → α} (hf : ∀ it p, f (it.patch p) = f it)
    (it : QueueItem) (ps : List Patch) : f (ps.foldl QueueItem.patch it) = f it := by
  induction ps generalizing it with
  | nil => rfl
  | cons p ps ih => rw [List.foldl_cons, ih, hf]

/-- What no patch changes of an item, no update changes in the list, nor the order. -/
theorem map_updateItem {α : Type} {f : QueueItem → α} (hf : ∀ it p, f (it.patch p) = f it)
    (items : List QueueItem) (id : JsString) (p : Patch) :
    (updateItem items id p).map f = items.map f := by
  rw [updateItem, List.map_map]
  refine List.map_congr_left fun it _ => ?_
  simp only [Function.comp_apply]
  split
  · exact hf it p
  · rfl

/-- No update changes a capsule or the order of the items. -/
@[simp] theorem updateItem_capsules (items : List QueueItem) (id : JsString) (p : Patch) :
    (updateItem items id p).map QueueItem.capsule = items.map QueueItem.capsule :=
  map_updateItem QueueItem.patch_capsule items id p

/-! ## What a migration leaves -/

theorem field_ne_preview (f : Field) : f.name ≠ js "preview" := by
  cases f <;> decide

theorem lookup_filter {ps : List (JsString × JsValue)} {k k' : JsString} (h : k' ≠ k) :
    lookup (ps.filter fun p => p.1 ≠ k) k' = lookup ps k' := by
  induction ps with
  | nil => rfl
  | cons p ps ih =>
    obtain ⟨k₀, v⟩ := p
    by_cases hk : k₀ = k
    · subst hk
      rw [List.filter_cons_of_neg (by simp), ih, lookup_cons, if_neg (Ne.symm h)]
    · rw [List.filter_cons_of_pos (by simpa using hk), lookup_cons, lookup_cons, ih]

/-- A property of a migrated element, from that of the stored one. -/
def migrated (f : Field) (v : JsValue) : JsValue :=
  if f = .backend then nullish v (.str Backend.drand.text)
  else if f = .status ∧ v.str? = some ItemStatus.unsealing.text then .str ItemStatus.ready.text
  else v

theorem lookup_migrateProps (ps : List (JsString × JsValue)) (f : Field) :
    lookup (migrateProps ps) f.name = migrated f (lookup ps f.name) := by
  have hname : ∀ {g g' : Field}, g.name = g'.name ↔ g = g' :=
    ⟨Field.name_injective, fun h => h ▸ rfl⟩
  have hrest : ∀ g : Field, lookup (ps.filter fun p => p.1 ≠ js "preview") g.name =
      lookup ps g.name := fun g => lookup_filter (field_ne_preview g)
  unfold migrateProps migrated
  simp only [hrest]
  have hstatus : lookup (setProp (ps.filter fun p => p.1 ≠ js "preview") Field.backend.name
      (nullish (lookup ps Field.backend.name) (.str Backend.drand.text))) Field.status.name =
        lookup ps Field.status.name := by
    rw [lookup_setProp, if_neg (by decide), hrest]
  rw [hstatus]
  by_cases hunsealing : (lookup ps Field.status.name).str? = some ItemStatus.unsealing.text
  · rw [if_pos hunsealing]
    simp only [lookup_setProp, hname, hrest]
    cases f <;> simp [hunsealing]
  · rw [if_neg hunsealing]
    simp only [lookup_setProp, hname, hrest]
    cases f <;> simp [hunsealing]

theorem nodup_migrateProps {ps : List (JsString × JsValue)} (h : (keys ps).Nodup) :
    (keys (migrateProps ps)).Nodup := by
  have hrest : (keys (ps.filter fun p => p.1 ≠ js "preview")).Nodup :=
    h.sublist (List.filter_sublist.map Prod.fst)
  unfold migrateProps
  simp only
  split
  · exact nodup_setProp _ _ (nodup_setProp _ _ hrest)
  · exact nodup_setProp _ _ hrest

/-- Elements that can all be destructured are migrated one by one. -/
theorem mapM_migrate {vs : List JsValue} (h : ∀ v ∈ vs, v ≠ .null ∧ v ≠ .undefined) :
    vs.mapM migrate = some (vs.map fun v => .obj (migrateProps (ownProps v))) := by
  induction vs with
  | nil => rfl
  | cons v vs ih =>
    obtain ⟨hnull, hundef⟩ := h v List.mem_cons_self
    have hv : migrate v = some (.obj (migrateProps (ownProps v))) := by
      cases v with
      | null => exact absurd rfl hnull
      | undefined => exact absurd rfl hundef
      | _ => rfl
    rw [List.mapM_cons, hv, ih fun w hw => h w (List.mem_cons_of_mem v hw)]
    rfl

/-- One `null` is enough to make the loop throw. -/
theorem mapM_migrate_null {vs : List JsValue} (h : .null ∈ vs) : vs.mapM migrate = none := by
  induction vs with
  | nil => cases h
  | cons v vs ih =>
    rw [List.mapM_cons]
    rcases List.mem_cons.1 h with rfl | h
    · rfl
    · rw [ih h]
      cases migrate v <;> rfl

/-! ## What the app has stored is loaded -/

theorem optional_read (o : Option JsString) : readOptional (optional o) = some o := by
  cases o <;> rfl

theorem readBackend_text (b : Backend) : readBackend (.str b.text) = some b := by
  cases b <;> decide

theorem readStatus_text (st : ItemStatus) : readStatus (.str st.text) = some st := by
  cases st <;> decide

/-- An object with the properties of an item is that item. -/
theorem ofJson_of_values {v : JsValue} {it : QueueItem} (h : ∀ f : Field, v.get f.name = it.value f) :
    QueueItem.ofJson v = some it := by
  unfold QueueItem.ofJson
  simp only [h, QueueItem.value, optional_read, readBackend_text, readStatus_text, JsValue.str?,
    Option.bind_eq_bind, Option.bind_some]

theorem lookup_fields (value : Field → JsValue) (f : Field) :
    lookup (Field.all.map fun f => (f.name, value f)) f.name = value f := by
  have hkeys : keys (Field.all.map fun f => (f.name, value f)) = Field.all.map Field.name := by
    rw [keys, List.map_map]
    rfl
  exact lookup_of_mem (hkeys ▸ Field.names_nodup)
    (List.mem_map.2 ⟨f, Field.mem_all f, rfl⟩)

namespace QueueItem

/-- An item as it is after a reload: an attempt to unseal it is forgotten, and a number that is not
finite has become `null`. -/
def reloaded (it : QueueItem) : QueueItem :=
  { it with
    status := if it.status = .unsealing then .ready else it.status
    unlockUnix := propJson it.unlockUnix
    createdAt := propJson it.createdAt
    round := propJson it.round
    ctrngTargetSequence := propJson it.ctrngTargetSequence
    ctrngWitnessSequence := propJson it.ctrngWitnessSequence
    ctrngWitnessTimestamp := propJson it.ctrngWitnessTimestamp
    ctrngWitnessValue := propJson it.ctrngWitnessValue }

@[simp] theorem reloaded_capsule (it : QueueItem) : it.reloaded.capsule = it.capsule := rfl

theorem propJson_str (s : JsString) : propJson (.str s) = .str s := rfl

theorem propJson_optional (o : Option JsString) : propJson (optional o) = optional o := by
  cases o <;> rfl

theorem migrated_value (it : QueueItem) (f : Field) :
    migrated f (propJson (it.value f)) = it.reloaded.value f := by
  cases f with
  | backend => cases hb : it.backend <;> simp [migrated, value, reloaded, propJson_str, nullish, hb]
  | status =>
    cases hs : it.status <;>
      simp [migrated, value, reloaded, propJson_str, JsValue.str?, ItemStatus.text, hs] <;> decide
  | _ => simp [migrated, value, reloaded, propJson_str, propJson_optional]

end QueueItem

/-- An item through `saveQueue` and `loadQueue`. -/
theorem ofJson_migrate (it : QueueItem) : ∃ v, migrate (asJson it.toJson) = some v ∧
    QueueItem.ofJson v = some it.reloaded := by
  refine ⟨_, by rw [QueueItem.toJson, asJson]; rfl, ofJson_of_values fun f => ?_⟩
  have hnd : (keys (Field.all.map fun f => (f.name, it.value f))).Nodup := by
    rw [keys, List.map_map]
    exact Field.names_nodup
  have hget := get_asJson hnd f.name
  rw [lookup_fields, asJson, JsValue.get_obj] at hget
  rw [JsValue.get_obj, lookup_migrateProps, ← QueueItem.migrated_value, ← hget]
  rfl

/-- **What the app itself has stored is loaded item by item.** -/
theorem loadQueue_saveQueue (items : List QueueItem) :
    (loadQueue (some (saveQueue (items.map QueueItem.toJson)))).filterMap QueueItem.ofJson =
      items.map QueueItem.reloaded := by
  have hne : saveQueue (items.map QueueItem.toJson) ≠ [] := by
    rw [saveQueue, jsonText]
    simp
  have hparse : parse (saveQueue (items.map QueueItem.toJson)) =
      some (.arr (items.map fun it => asJson it.toJson)) := by
    rw [saveQueue, parse_jsonText, asJson, elementsJson_eq_map, List.map_map]
    rfl
  have hload : ∃ ws, (items.map fun it => asJson it.toJson).mapM migrate = some ws ∧
      ws.filterMap QueueItem.ofJson = items.map QueueItem.reloaded := by
    clear hne hparse
    induction items with
    | nil => exact ⟨[], rfl, rfl⟩
    | cons it items ih =>
      obtain ⟨v, hv, hitem⟩ := ofJson_migrate it
      obtain ⟨ws, hws, hitems⟩ := ih
      refine ⟨v :: ws, ?_, ?_⟩
      · rw [List.map_cons, List.mapM_cons, hv, hws]
        rfl
      · rw [List.filterMap_cons, hitem, hitems, List.map_cons]
  obtain ⟨ws, hws, hitems⟩ := hload
  unfold loadQueue
  simp only [if_neg hne, hparse, hws, Option.getD_some]
  exact hitems

/-! ## Mounting the app -/

/-- What is stored after `App` has mounted (App.tsx:46 and 56): it loads the queue and writes back what
it has loaded. -/
def mount (raw : JsString) : JsString := saveQueue (loadQueue (some raw))

def IsStr (v : JsValue) : Prop := ∃ s, v = .str s

def IsNum (v : JsValue) : Prop := ∃ x, v = .num x

/-- The type of a property in `QueueItem`; items from before there were two backends have none. -/
def Field.Admits (v : JsValue) : Field → Prop
  | id | envelope => IsStr v
  | unlockUnix | createdAt => IsNum v
  | backend => v = .undefined ∨ ∃ b : Backend, v = .str b.text
  | status => ∃ st : ItemStatus, v = .str st.text
  | round | ctrngTargetSequence | ctrngWitnessSequence | ctrngWitnessTimestamp =>
    v = .undefined ∨ IsNum v
  | plaintext | error | ctrngKeyB64 | ctrngWitnessValue | ctrngWitnessUrl | senderEns
  | recipientEns | capsuleEns | capsulePublishError => v = .undefined ∨ IsStr v

/-- An object with the properties of an item, and any others. -/
structure WellFormedItem (v : JsValue) : Prop where
  object : ∃ ps, v = .obj ps
  admits : ∀ f : Field, f.Admits (v.get f.name)

/-- Two objects have the same id, envelope, key and plaintext. -/
def SameCapsule (v w : JsValue) : Prop :=
  ∀ f ∈ [Field.id, .envelope, .ctrngKeyB64, .plaintext], w.get f.name = v.get f.name

/-- What is stored is still an array with every well-formed item of `vs`. -/
def Keeps (stored : JsString) (vs : List JsValue) : Prop :=
  ∃ ws, parse stored = some (.arr ws) ∧
    ∀ v ∈ vs, WellFormedItem v → ∃ w ∈ ws, SameCapsule v w

theorem mem_elementsAreJson {vs : List JsValue} (h : ElementsAreJson vs) :
    ∀ v ∈ vs, IsJson v := by
  induction vs with
  | nil =>
    rintro v ⟨⟩
  | cons v vs ih =>
    rw [ElementsAreJson] at h
    rintro w hw
    rcases List.mem_cons.1 hw with rfl | hw
    · exact h.1
    · exact ih h.2 w hw

/-- A well-formed item keeps its capsule through the migration and `JSON.stringify`. -/
theorem sameCapsule_migrate {v : JsValue} (hjson : IsJson v) (hitem : WellFormedItem v) :
    SameCapsule v (asJson (.obj (migrateProps (ownProps v)))) := by
  obtain ⟨ps, rfl⟩ := hitem.object
  rw [IsJson] at hjson
  have hprop : ∀ {x : JsValue}, x = .undefined ∨ IsStr x → propJson x = x := by
    rintro x (rfl | ⟨s, rfl⟩)
    · rfl
    · rfl
  have hget : ∀ f : Field, (asJson (.obj (migrateProps ps))).get f.name =
      propJson (migrated f (lookup ps f.name)) := fun f => by
    rw [get_asJson (nodup_migrateProps hjson.1), lookup_migrateProps]
  intro f hf
  have hadmits := hitem.admits f
  rw [JsValue.get_obj] at hadmits
  rw [ownProps, hget, JsValue.get_obj]
  simp only [List.mem_cons, List.not_mem_nil, or_false] at hf
  obtain rfl | rfl | rfl | rfl := hf
  · exact hprop (Or.inr hadmits)
  · exact hprop (Or.inr hadmits)
  · exact hprop hadmits
  · exact hprop hadmits

/-- **Mounting keeps the well-formed items of a stored array** exactly when no `null` stands among its
elements, or there is nothing to lose. -/
theorem mount_keeps_iff {raw : JsString} {vs : List JsValue} (hraw : parse raw = some (.arr vs)) :
    Keeps (mount raw) vs ↔ .null ∉ vs ∨ ∀ v ∈ vs, ¬ WellFormedItem v := by
  have hne : raw ≠ [] := by
    rintro rfl
    cases hraw
  have hjson : ∀ v ∈ vs, IsJson v := mem_elementsAreJson (isJson_parse hraw)
  have hmount : mount raw = saveQueue ((vs.mapM migrate).getD []) := by
    unfold mount loadQueue
    simp only [if_neg hne, hraw]
  rw [hmount]
  by_cases hnull : .null ∈ vs
  · rw [mapM_migrate_null hnull, Option.getD_none]
    constructor
    · rintro ⟨ws, hws, hkept⟩
      have hempty : parse (saveQueue []) = some (.arr []) := parse_jsonText (.arr [])
      rw [hempty] at hws
      cases hws
      refine Or.inr fun v hv hitem => ?_
      obtain ⟨w, hw, -⟩ := hkept v hv hitem
      cases hw
    · rintro (h | h)
      · exact absurd hnull h
      · exact ⟨[], parse_jsonText (.arr []), fun v hv hitem => absurd hitem (h v hv)⟩
  · have hall : ∀ v ∈ vs, v ≠ .null ∧ v ≠ .undefined := by
      refine fun v hv => ⟨fun h => hnull (h ▸ hv), ?_⟩
      rintro rfl
      exact hjson _ hv
    rw [mapM_migrate hall, Option.getD_some]
    refine iff_of_true ⟨_, parse_jsonText _, fun v hv hitem => ?_⟩ (Or.inl hnull)
    rw [elementsJson_eq_map, List.map_map]
    exact ⟨_, List.mem_map_of_mem hv, sameCapsule_migrate (hjson v hv) hitem⟩

/-- A sealed cTRNG item. -/
def sealedItem : QueueItem where
  id := js "a"
  backend := .ctrng
  envelope := js "e30="
  unlockUnix := .num (ofRat 1)
  createdAt := .num (ofRat 0)
  status := .sealed
  ctrngKeyB64 := some (js "AAAA")

theorem wellFormed_sealedItem (id : JsString) :
    WellFormedItem (asJson { sealedItem with id }.toJson) := by
  refine ⟨⟨_, by rw [QueueItem.toJson, asJson]⟩, fun f => ?_⟩
  have hget : (asJson { sealedItem with id }.toJson).get f.name =
      propJson ({ sealedItem with id }.value f) := by
    rw [QueueItem.toJson, get_asJson (by rw [keys, List.map_map]; exact Field.names_nodup),
      lookup_fields]
  have hnum : ∀ n : ℚ, n ∈ [0, 1] → propJson (.num (ofRat n)) = .num (ofRat n) := by
    intro n hn
    have hfin : ∀ n ∈ [(0 : ℚ), 1], (ofRat n).isFinite = true := by decide +kernel
    simp [propJson, isUndefined, asJson, hfin n hn]
  rw [hget]
  cases f with
  | id => exact ⟨_, rfl⟩
  | envelope => exact ⟨_, rfl⟩
  | unlockUnix => exact ⟨_, hnum 1 (by simp)⟩
  | createdAt => exact ⟨_, hnum 0 (by simp)⟩
  | backend => exact Or.inr ⟨.ctrng, rfl⟩
  | status => exact ⟨.sealed, rfl⟩
  | ctrngKeyB64 => exact Or.inr ⟨_, rfl⟩
  | _ => exact Or.inl rfl

theorem parse_saveQueue (vs : List JsValue) :
    parse (saveQueue vs) = some (.arr (vs.map asJson)) := by
  rw [saveQueue, parse_jsonText, asJson, elementsJson_eq_map]

/-- Two items with a foreign value between them. -/
def storedValues : List JsValue :=
  [sealedItem.toJson, .str (js "?"), { sealedItem with id := js "b" }.toJson]

theorem mount_keeps_storedValues :
    Keeps (mount (saveQueue storedValues)) (storedValues.map asJson) ∧
      WellFormedItem (asJson sealedItem.toJson) ∧
      WellFormedItem (asJson { sealedItem with id := js "b" }.toJson) := by
  refine ⟨(mount_keeps_iff (parse_saveQueue storedValues)).2 (Or.inl ?_),
    wellFormed_sealedItem (js "a"), wellFormed_sealedItem (js "b")⟩
  simp [storedValues, QueueItem.toJson, asJson]

/-- One `null` in front of the item, and all that is stored after a mount is an empty array. -/
theorem mount_loses_sealedItem :
    saveQueue [.null, sealedItem.toJson] =
        js "[null,\x7b\"id\":\"a\",\"backend\":\"ctrng\",\"envelope\":\"e30=\"," ++
          js "\"unlock_unix\":1,\"created_at\":0,\"status\":\"sealed\"," ++
            js "\"ctrng_key_b64\":\"AAAA\"\x7d]" ∧
      parse (saveQueue [.null, sealedItem.toJson]) =
        some (.arr [.null, asJson sealedItem.toJson]) ∧
      WellFormedItem (asJson sealedItem.toJson) ∧
      mount (saveQueue [.null, sealedItem.toJson]) = js "[]" ∧
      ¬ Keeps (mount (saveQueue [.null, sealedItem.toJson]))
        [.null, asJson sealedItem.toJson] := by
  have hparse := parse_saveQueue [.null, sealedItem.toJson]
  have hmount : mount (saveQueue [.null, sealedItem.toJson]) = js "[]" := by
    have hne : saveQueue [.null, sealedItem.toJson] ≠ [] := by
      rw [saveQueue, jsonText]
      simp
    unfold mount loadQueue
    simp only [if_neg hne, hparse]
    rfl
  have hempty : parse (js "[]") = some (.arr []) := rfl
  refine ⟨by decide +kernel, hparse, wellFormed_sealedItem (js "a"), hmount, ?_⟩
  rw [hmount]
  rintro ⟨ws, hws, hkept⟩
  rw [hempty] at hws
  cases hws
  obtain ⟨w, hw, -⟩ := hkept (asJson sealedItem.toJson) (by simp)
    (wellFormed_sealedItem (js "a"))
  cases hw

end SealedSky.Web
