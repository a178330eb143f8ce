import SealedSky.Web.Reveal

/-!
# The queue of one tab (`sealed-sky-web/src/App.tsx:99-363`)

Seals, imports, ticks, attempts and publishes all patch the list by id, with old copies of an item in
hand. As long as the page is not reloaded, the list only loses what is deleted and only gains what is
new.

* `step_frame` — a step leaves the items alone that it is not for.
* `step_follows` — a step keeps the order of the items and what they are made with.
* `run_integrity` — so does a run, and an item that has gone never comes back.
-/
namespace SealedSky.Web

open Js

/-- What an item is made with and no update changes. -/
structure Fixed where
  id : JsString
  backend : Backend
  envelope : JsString
  round : JsValue
  unlockUnix : JsValue
  createdAt : JsValue
  ctrngKeyB64 : Option JsString

def QueueItem.fixed (it : QueueItem) : Fixed :=
  ⟨it.id, it.backend, it.envelope, it.round, it.unlockUnix, it.createdAt, it.ctrngKeyB64⟩

@[simp] theorem QueueItem.patch_fixed (it : QueueItem) (p : Patch) :
    (it.patch p).fixed = it.fixed := rfl

@[simp] theorem QueueItem.fixed_id (it : QueueItem) : it.fixed.id = it.id := rfl

namespace App

def Action.isReload : Action → Bool
  | .reload => true
  | _ => false

/-- The ids of the items that an action is for. -/
def aims (s : State) : Action → List JsString
  | .sealDrand _ _ _ _ _ newId _ => [newId]
  | .sealCtrng _ _ _ _ _ _ _ newId _ => [newId]
  | .importLink _ _ _ _ newId => [newId]
  | .tick now => (dueItems (JsNum.divBy 1000 (ofRat now.ms)) s.view).map QueueItem.id
  | .click id => [id]
  | .advance i _ => (s.attempts[i]?).toList.map fun a => a.item.id
  | .published i _ => (s.publishing[i]?).toList
  | .delete id => [id]
  | .render => []
  | .save => []
  | .reload => []

def deletedBy : Action → List JsString
  | .delete id => [id]
  | _ => []

/-- The items with other ids. -/
def others (ids : List JsString) (items : List QueueItem) : List QueueItem :=
  items.filter fun it => !ids.contains it.id

/-- What was ever inserted. -/
def State.ids (s : State) : List JsString := s.known.map Origin.id

/-- A state has the items of an earlier one that were not deleted, as they were made and in their order,
and after them items with new ids. -/
structure Follows (deleted : List JsString) (s t : State) : Prop where
  known : ∀ id ∈ s.ids, id ∈ t.ids
  items : ∃ new : List Fixed,
    t.items.map QueueItem.fixed =
        (s.items.map QueueItem.fixed).filter (fun f => !deleted.contains f.id) ++ new ∧
      (new.map Fixed.id).Nodup ∧ ∀ f ∈ new, f.id ∉ s.ids ∧ f.id ∈ t.ids

/-! ## What a step can do -/

/-- The steps without a reload, sorted by what they do to the queue and the attempts. -/
inductive Effect (A : AesGcm) (s : State) : Action → State → Prop where
  | idle {a : Action} {t : State} (hdel : deletedBy a = []) (hitems : t.items = s.items)
      (hknown : t.known = s.known) (hflight : t.inFlight = s.inFlight)
      (hattempts : t.attempts = s.attempts) : Effect A s a t
  | inserted {a : Action} {t : State} (item : QueueItem) (hdel : deletedBy a = [])
      (haims : aims s a = [item.id]) (hstatus : item.status = .sealed)
      (hfresh : s.isFresh item.id = true)
      (hitems : t.items = s.items ∨ t.items = s.items ++ [item])
      (hknown : t.known = s.known ++ [item.origin]) (hflight : t.inFlight = s.inFlight)
      (hattempts : t.attempts = s.attempts) : Effect A s a t
  | ticked (now : TimeValue) :
      Effect A s (.tick now) (s.tickLoop (JsNum.divBy 1000 (ofRat now.ms)) s.view)
  | clicked (it : QueueItem) (hview : it ∈ s.view) : Effect A s (.click it.id) (s.tryUnseal it)
  | advanced (i : ℕ) (o : Outcome) (a : Attempt) (p : Option Patch) (next : Option Stage)
      (ha : s.attempts[i]? = some a) (hadv : advance A a.item a.stage o = some (p, next)) :
      Effect A s (.advance i o) (s.afterAdvance i a o p next)
  | published (i : ℕ) (name : Except JsString JsString) (id : JsString)
      (hid : s.publishing[i]? = some id) :
      Effect A s (.published i name) { s with
        items := updateItem s.items id (State.publishPatch name)
        publishing := s.publishing.eraseIdx i }
  | deleted (id : JsString) :
      Effect A s (.delete id) { s with items := s.items.filter fun it => it.id ≠ id }

section
variable {A : AesGcm} {s t : State} {a : Action}

theorem effect_insertSealed {item : QueueItem} (hdel : deletedBy a = [])
    (haims : aims s a = [item.id]) (hstatus : item.status = .sealed)
    (h : s.insertSealed item = some t) : Effect A s a t := by
  unfold State.insertSealed at h
  split at h
  · rename_i hfresh
    cases h
    exact .inserted item hdel haims hstatus hfresh (Or.inr rfl) rfl rfl rfl
  · cases h

theorem effect_insertImport {item : QueueItem} (hdel : deletedBy a = [])
    (haims : aims s a = [item.id]) (hstatus : item.status = .sealed)
    (h : s.insertImport item = some t) : Effect A s a t := by
  unfold State.insertImport at h
  split at h
  · rename_i hfresh
    cases h
    refine .inserted item hdel haims hstatus hfresh ?_ rfl rfl rfl
    unfold insertImported
    split
    · exact Or.inl rfl
    · exact Or.inr rfl
  · cases h

theorem step_effect (hstep : s.step A a = some t) (hreload : a.isReload = false) :
    Effect A s a t := by
  cases a with
  | render =>
    cases hstep
    exact .idle rfl rfl rfl rfl rfl
  | save =>
    cases hstep
    exact .idle rfl rfl rfl rfl rfl
  | sealDrand round actualUnlock ct recipientEns senderEns newId now =>
    exact effect_insertSealed rfl rfl rfl hstep
  | sealCtrng message unlockUnix recipientEns senderEns reply keyBytes iv newId now =>
    rw [State.step] at hstep
    split at hstep
    · cases hstep
      exact .idle rfl rfl rfl rfl rfl
    · rename_i item hitem
      obtain ⟨sealed, -, rfl⟩ := sealCtrng_cases hitem
      exact effect_insertSealed rfl rfl rfl hstep
  | importLink page readEnsText timeAt now newId =>
    rw [State.step] at hstep
    split at hstep
    · rename_i item hitem
      obtain ⟨imp, ens, hfinal⟩ := finalise_of_importLink hitem
      obtain ⟨rfl, -, -, hstatus, -, -⟩ := finalise_cases hfinal
      exact effect_insertImport rfl rfl hstatus hstep
    · cases hstep
      exact .idle rfl rfl rfl rfl rfl
  | tick now =>
    cases hstep
    exact .ticked now
  | click id =>
    rw [State.step] at hstep
    split at hstep
    · cases hstep
      exact .idle rfl rfl rfl rfl rfl
    · rename_i it hfind
      cases hstep
      have hid : it.id = id := by simpa using List.find?_some hfind
      subst hid
      exact .clicked it (List.mem_of_find?_eq_some hfind)
  | advance i o =>
    obtain ⟨a, ha, hstep⟩ := Option.bind_eq_some_iff.1 hstep
    obtain ⟨⟨p, next⟩, hadv, heq⟩ := Option.bind_eq_some_iff.1 hstep
    cases heq
    exact .advanced i o a p next ha hadv
  | published i name =>
    obtain ⟨id, hid, rfl⟩ := Option.map_eq_some_iff.1 hstep
    exact .published i name id hid
  | delete id =>
    cases hstep
    exact .deleted id
  | reload => cases hreload

end

/-! ## What a step leaves alone -/

section
variable {ids : List JsString} {s t : State}

theorem others_append (ids : List JsString) (items items' : List QueueItem) :
    others ids (items ++ items') = others ids items ++ others ids items' := List.filter_append ..

/-- An update is not about the others. -/
theorem others_updateItem {id : JsString} (h : ids.contains id = true) (items : List QueueItem)
    (p : Patch) : others ids (updateItem items id p) = others ids items := by
  induction items with
  | nil => rfl
  | cons it items ih =>
    have ih : (items.map fun it => if it.id = id then it.patch p else it).filter
        (fun it => !ids.contains it.id) = items.filter fun it => !ids.contains it.id := ih
    rw [others, others, updateItem, List.map_cons, List.filter_cons, List.filter_cons, ih]
    by_cases hid : it.id = id
    · have hpatch : (it.patch p).id = id := hid
      simp [hid, hpatch, List.contains_iff_mem.1 h]
    · rw [if_neg hid]

theorem others_patchItems {id : JsString} (h : ids.contains id = true) (items : List QueueItem)
    (p : Option Patch) : others ids (patchItems items id p) = others ids items := by
  cases p with
  | none => rfl
  | some p => exact others_updateItem h items p

theorem others_tryUnseal {item : QueueItem} (h : ids.contains item.id = true) (s : State) :
    others ids (s.tryUnseal item).items = others ids s.items := by
  unfold State.tryUnseal
  split
  · rfl
  · exact others_patchItems h s.items (start item).1

/-- A tick is for the items that are due. -/
theorem others_tickLoop (tSec : JsNum) (its : List QueueItem) (s : State) :
    others ((dueItems tSec its).map QueueItem.id) (s.tickLoop tSec its).items =
      others ((dueItems tSec its).map QueueItem.id) s.items := by
  have hmem : ∀ it ∈ dueItems tSec its,
      ((dueItems tSec its).map QueueItem.id).contains it.id = true :=
    fun it hit => List.contains_iff_mem.2 (List.mem_map_of_mem hit)
  refine tickLoop_inv (P := fun s' => others ((dueItems tSec its).map QueueItem.id) s'.items =
    others ((dueItems tSec its).map QueueItem.id) s.items) ?_ ?_ rfl
  · intro s' it hit _ hs'
    rw [others_updateItem (hmem it hit), hs']
  · intro s' it hit _ hs'
    rw [others_tryUnseal (hmem it hit), hs']

theorem contains_self (id : JsString) : [id].contains id = true := by
  rw [List.contains_iff_mem]
  exact List.mem_singleton_self id

/-- **A step leaves the items alone that it is not for.** -/
theorem step_frame {A : AesGcm} {a : Action} (hstep : s.step A a = some t)
    (hreload : a.isReload = false) : others (aims s a) t.items = others (aims s a) s.items := by
  cases step_effect hstep hreload with
  | idle _ hitems => rw [hitems]
  | inserted item _ haims _ _ hitems =>
    rw [haims]
    rcases hitems with hitems | hitems
    · rw [hitems]
    · rw [hitems, others_append]
      simp [others]
  | ticked now => exact others_tickLoop _ s.view s
  | clicked it _ => exact others_tryUnseal (contains_self it.id) s
  | advanced i o a p next ha _ =>
    have haims : aims s (.advance i o) = [a.item.id] := by
      rw [aims, ha]
      rfl
    have hitems : (s.afterAdvance i a o p next).items = patchItems s.items a.item.id p := by
      cases next <;> rfl
    rw [haims, hitems, others_patchItems (contains_self a.item.id)]
  | published i name id hid =>
    have haims : aims s (.published i name) = [id] := by
      rw [aims, hid]
      rfl
    rw [haims, others_updateItem (contains_self id)]
  | deleted id =>
    rw [aims, others, others, List.filter_filter]
    refine List.filter_congr fun it _ => ?_
    by_cases hid : it.id = id
    · simp [hid]
    · simp [hid]

end

/-! ## What a step keeps -/

section
variable {deleted deleted' : List JsString} {s m t : State}

theorem Follows.same (hitems : t.items.map QueueItem.fixed = s.items.map QueueItem.fixed)
    (hknown : t.known = s.known) : Follows [] s t := by
  refine ⟨fun id hid => ?_, [], ?_, List.nodup_nil, fun f hf => nomatch hf⟩
  · rwa [State.ids, hknown]
  · rw [hitems, List.append_nil]
    exact (List.filter_eq_self.2 fun f _ => rfl).symm

theorem Follows.refl (s : State) : Follows [] s s := Follows.same rfl rfl

theorem Follows.insert {item : QueueItem} (hfresh : s.isFresh item.id = true)
    (hitems : t.items = s.items ∨ t.items = s.items ++ [item])
    (hknown : t.known = s.known ++ [item.origin]) : Follows [] s t := by
  have hids : t.ids = s.ids ++ [item.id] := by
    rw [State.ids, hknown, List.map_append]
    rfl
  have hnew : item.id ∉ s.ids := by
    intro hmem
    obtain ⟨o, ho, hid⟩ := List.mem_map.1 hmem
    exact isFresh_iff.1 hfresh o ho hid
  have hall : (s.items.map QueueItem.fixed).filter (fun f => !List.contains [] f.id) =
      s.items.map QueueItem.fixed := List.filter_eq_self.2 fun f _ => rfl
  refine ⟨fun id hid => hids ▸ List.mem_append_left _ hid, ?_⟩
  rw [hall]
  rcases hitems with hitems | hitems
  · exact ⟨[], by rw [hitems, List.append_nil], List.nodup_nil, fun f hf => nomatch hf⟩
  · refine ⟨[item.fixed], by rw [hitems, List.map_append]; rfl, List.nodup_singleton _, ?_⟩
    intro f hf
    rw [List.mem_singleton.1 hf]
    exact ⟨hnew, hids ▸ List.mem_append_right _ (List.mem_singleton_self _)⟩

theorem Follows.delete (id : JsString) :
    Follows [id] s { s with items := s.items.filter fun it => it.id ≠ id } := by
  refine ⟨fun id hid => hid, [], ?_, List.nodup_nil, fun f hf => nomatch hf⟩
  rw [List.append_nil, List.filter_map]
  refine congrArg (List.map QueueItem.fixed) (List.filter_congr fun it _ => ?_)
  by_cases hid : it.id = id
  · simp [hid]
  · simp [hid]

theorem Follows.trans (h : Follows deleted s m) (h' : Follows deleted' m t) :
    Follows (deleted ++ deleted') s t := by
  obtain ⟨new, hnew, hnodup, hfresh⟩ := h.items
  obtain ⟨new', hnew', hnodup', hfresh'⟩ := h'.items
  refine ⟨fun id hid => h'.known id (h.known id hid),
    new.filter (fun f => !deleted'.contains f.id) ++ new', ?_, ?_, fun f hf => ?_⟩
  · rw [hnew', hnew, List.filter_append, List.filter_filter, List.append_assoc]
    congr 1
    refine List.filter_congr fun f _ => ?_
    simp [List.contains_eq_mem, Bool.and_comm]
  · rw [List.map_append]
    refine List.Nodup.append (hnodup.sublist (List.filter_sublist.map _)) hnodup' ?_
    intro id hid hid'
    obtain ⟨f, hf, rfl⟩ := List.mem_map.1 hid
    obtain ⟨f', hf', heq⟩ := List.mem_map.1 hid'
    exact (hfresh' f' hf').1 (heq ▸ (hfresh f (List.mem_filter.1 hf).1).2)
  · rcases List.mem_append.1 hf with hf | hf
    · have hmem := hfresh f (List.mem_filter.1 hf).1
      exact ⟨hmem.1, h'.known _ hmem.2⟩
    · have hmem := hfresh' f hf
      exact ⟨fun hid => hmem.1 (h.known _ hid), hmem.2⟩

/-- A patched list has the items of before, as they were made. -/
theorem fixed_patchItems (items : List QueueItem) (id : JsString) (p : Option Patch) :
    (patchItems items id p).map QueueItem.fixed = items.map QueueItem.fixed := by
  cases p with
  | none => rfl
  | some p => exact map_updateItem QueueItem.patch_fixed items id p

theorem fixed_tryUnseal (s : State) (item : QueueItem) :
    (s.tryUnseal item).items.map QueueItem.fixed = s.items.map QueueItem.fixed ∧
      (s.tryUnseal item).known = s.known := by
  unfold State.tryUnseal
  split
  · exact ⟨rfl, rfl⟩
  · exact ⟨fixed_patchItems _ _ _, rfl⟩

theorem fixed_tickLoop (tSec : JsNum) (its : List QueueItem) (s : State) :
    (s.tickLoop tSec its).items.map QueueItem.fixed = s.items.map QueueItem.fixed ∧
      (s.tickLoop tSec its).known = s.known := by
  refine tickLoop_inv (P := fun s' => s'.items.map QueueItem.fixed = s.items.map QueueItem.fixed ∧
    s'.known = s.known) ?_ ?_ ⟨rfl, rfl⟩
  · rintro s' it _ _ ⟨hitems, hknown⟩
    exact ⟨(map_updateItem QueueItem.patch_fixed _ _ _).trans hitems, hknown⟩
  · rintro s' it _ _ ⟨hitems, hknown⟩
    obtain ⟨hitems', hknown'⟩ := fixed_tryUnseal s' it
    exact ⟨hitems'.trans hitems, hknown'.trans hknown⟩

/-- **A step keeps the order of the items and what they are made with.** -/
theorem step_follows {A : AesGcm} {a : Action} (hstep : s.step A a = some t)
    (hreload : a.isReload = false) : Follows (deletedBy a) s t := by
  cases step_effect hstep hreload with
  | idle hdel hitems hknown =>
    rw [hdel]
    exact Follows.same (congrArg _ hitems) hknown
  | inserted item hdel _ _ hfresh hitems hknown =>
    rw [hdel]
    exact Follows.insert hfresh hitems hknown
  | ticked now => exact Follows.same (fixed_tickLoop _ _ s).1 (fixed_tickLoop _ _ s).2
  | clicked it _ => exact Follows.same (fixed_tryUnseal s it).1 (fixed_tryUnseal s it).2
  | advanced i o a p next _ _ =>
    refine Follows.same ?_ ?_
    · have hitems : (s.afterAdvance i a o p next).items = patchItems s.items a.item.id p := by
        cases next <;> rfl
      rw [hitems, fixed_patchItems]
    · cases next <;> rfl
  | published i name id _ => exact Follows.same (map_updateItem QueueItem.patch_fixed _ _ _) rfl
  | deleted id => exact Follows.delete id

end

/-! ## Runs -/

section
variable {A : AesGcm} {s m t : State}

def deletions (as : List Action) : List JsString := as.flatMap deletedBy

theorem run_follows {as : List Action} (hreload : ∀ a ∈ as, a.isReload = false)
    (hrun : (app A).run s as = some t) : Follows (deletions as) s t := by
  induction as generalizing s with
  | nil =>
    simp only [Lts.run_nil, Option.some.injEq] at hrun
    exact hrun ▸ Follows.refl s
  | cons a as ih =>
    obtain ⟨m, hstep, hrun⟩ := ((app A).run_cons).1 hrun
    have hfirst : Follows (deletedBy a) s m := step_follows hstep (hreload a List.mem_cons_self)
    exact hfirst.trans (ih (fun b hb => hreload b (List.mem_cons_of_mem a hb)) hrun)

/-- Every item in the queue was inserted, and once. -/
structure Distinct (s : State) : Prop where
  nodup : (s.items.map QueueItem.id).Nodup
  known : ∀ it ∈ s.items, it.id ∈ s.ids

theorem map_fixed_id (items : List QueueItem) :
    (items.map QueueItem.fixed).map Fixed.id = items.map QueueItem.id := by
  rw [List.map_map]
  rfl

/-- An item of a later state was there before, or has a new id. -/
theorem Follows.origin {deleted : List JsString} (h : Follows deleted s t) {it : QueueItem}
    (hit : it ∈ t.items) :
    (∃ it' ∈ s.items, it'.fixed = it.fixed ∧ deleted.contains it.id = false) ∨
      it.id ∉ s.ids ∧ it.id ∈ t.ids := by
  obtain ⟨new, hnew, -, hfresh⟩ := h.items
  have hmem : it.fixed ∈ t.items.map QueueItem.fixed := List.mem_map_of_mem hit
  rw [hnew, List.mem_append] at hmem
  rcases hmem with hold | hmem
  · obtain ⟨hold, hkept⟩ := List.mem_filter.1 hold
    obtain ⟨it', hit', hfixed⟩ := List.mem_map.1 hold
    exact Or.inl ⟨it', hit', hfixed, by simpa using hkept⟩
  · exact Or.inr (hfresh it.fixed hmem)

theorem Distinct.follows {deleted : List JsString} (h : Distinct s) (hf : Follows deleted s t) :
    Distinct t := by
  constructor
  · obtain ⟨new, hnew, hnodup, hfresh⟩ := hf.items
    rw [← map_fixed_id, hnew, List.map_append]
    have hold : (((s.items.map QueueItem.fixed).filter fun f => !deleted.contains f.id).map
        Fixed.id).Sublist (s.items.map QueueItem.id) := by
      rw [← map_fixed_id]
      exact List.filter_sublist.map _
    refine List.Nodup.append (h.nodup.sublist hold) hnodup fun id hid hid' => ?_
    obtain ⟨it, hit, rfl⟩ := List.mem_map.1 (hold.subset hid)
    obtain ⟨f, hf, heq⟩ := List.mem_map.1 hid'
    exact (hfresh f hf).1 (heq ▸ h.known it hit)
  · intro it hit
    rcases hf.origin hit with ⟨it', hit', hfixed, -⟩ | ⟨-, hmem⟩
    · have hid : it'.id = it.id := congrArg Fixed.id hfixed
      exact hf.known it.id (hid ▸ h.known it' hit')
    · exact hmem

theorem distinct_init : Distinct State.init := ⟨List.nodup_nil, fun _ hit => nomatch hit⟩

/-- **In every run without a reload** ids stay unique; the queue keeps the order of its items and what
they are made with, loses what is deleted and appends what is new; what was deleted does not come back,
whatever still runs for it; and a step leaves the items alone that it is not for. -/
theorem run_integrity {as bs : List Action} (hreload : ∀ a ∈ as ++ bs, a.isReload = false)
    (hs : (app A).run (app A).init as = some s) (ht : (app A).run s bs = some t) :
    (t.items.map QueueItem.id).Nodup ∧ Follows (deletions bs) s t ∧
      (∀ it ∈ s.items, it.id ∈ deletions bs → it.id ∉ t.items.map QueueItem.id) ∧
      ∀ a u, a.isReload = false → (app A).step t a = some u →
        others (aims t a) u.items = others (aims t a) t.items := by
  have hbefore := run_follows (fun a ha => hreload a (List.mem_append_left _ ha)) hs
  have hafter := run_follows (fun a ha => hreload a (List.mem_append_right _ ha)) ht
  have hdistinct : Distinct s := distinct_init.follows hbefore
  refine ⟨(hdistinct.follows hafter).nodup, hafter, ?_, fun a u ha hstep => step_frame hstep ha⟩
  intro it hit hdel hmem
  obtain ⟨it', hit', hid⟩ := List.mem_map.1 hmem
  rcases hafter.origin hit' with ⟨-, -, -, hkept⟩ | ⟨hnew, -⟩
  · rw [hid] at hkept
    exact absurd (List.contains_iff_mem.2 hdel) (Bool.eq_false_iff.1 hkept)
  · exact hnew (hid ▸ hdistinct.known it hit)

/-- A capsule is deleted while an attempt and a publish for it are running. -/
theorem integrity_deleted :
    ∃ s t, (app zeroVector).run (app zeroVector).init (dueDrandRun [] ++ [.click (js "a")]) = some s ∧
      (app zeroVector).run s
        [.delete (js "a"), .advance 0 (.round (.ok false)), .advance 0 .settled,
          .published 0 (.ok (js "b"))] = some t ∧
      s.items.map QueueItem.id = [js "a"] ∧ js "a" ∉ t.items.map QueueItem.id := by
  have hrun := Lts.run_trans _ (run_dueDrandRun zeroVector [])
    (show (app zeroVector).run _ [.click (js "a")] = some _ from rfl)
  refine ⟨_, _, hrun, rfl, rfl, ?_⟩
  exact (@run_integrity zeroVector _ _ _
    [.delete (js "a"), .advance 0 (.round (.ok false)), .advance 0 .settled,
      .published 0 (.ok (js "b"))] (by decide) hrun rfl).2.2.1 _
    (List.mem_singleton_self _) (List.mem_singleton_self _)

end

end App

end SealedSky.Web
