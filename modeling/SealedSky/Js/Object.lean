import SealedSky.Js.Value

/-!
# Properties of JavaScript objects

An object is the list of its own properties in the order in which they came to be. Reading one that is
not there gives `undefined`; writing one replaces its value where it stands or puts it at the end. That
keys such as `"7"` come first in a listing is left out: no function of the program looks at the order.

* `lookup_setProp` — what a write leaves to be read.
* `ofMembers_eq_self` — members with different names stand as they are written.
-/
namespace SealedSky.Js

/-- `o[k]` of an object with these properties. -/
def lookup : List (JsString × JsValue) → JsString → JsValue
  | [], _ => .undefined
  | (k, v) :: ps, k' => if k = k' then v else lookup ps k'

/-- `o[k] = v`. -/
def setProp : List (JsString × JsValue) → JsString → JsValue → List (JsString × JsValue)
  | [], k, v => [(k, v)]
  | (k, w) :: ps, k', v => if k = k' then (k, v) :: ps else (k, w) :: setProp ps k' v

/-- An object literal, or the members of a JSON object: a later member overwrites an earlier one of
its name. -/
def ofMembers (ms : List (JsString × JsValue)) : List (JsString × JsValue) :=
  ms.foldl (fun ps m => setProp ps m.1 m.2) []

/-- `v[k]` of a value that is neither `null` nor `undefined`, for a `k` that no prototype has. -/
def JsValue.get (v : JsValue) (k : JsString) : JsValue :=
  match v with
  | .obj ps => lookup ps k
  | _ => .undefined

def keys (ps : List (JsString × JsValue)) : List JsString := ps.map Prod.fst

@[simp] theorem lookup_nil (k : JsString) : lookup [] k = .undefined := rfl

@[simp] theorem lookup_cons (k k' : JsString) (v : JsValue) (ps : List (JsString × JsValue)) :
    lookup ((k, v) :: ps) k' = if k = k' then v else lookup ps k' := rfl

@[simp] theorem JsValue.get_obj (ps : List (JsString × JsValue)) (k : JsString) :
    (JsValue.obj ps).get k = lookup ps k := rfl

@[simp] theorem keys_nil : keys [] = [] := rfl

@[simp] theorem keys_cons (k : JsString) (v : JsValue) (ps : List (JsString × JsValue)) :
    keys ((k, v) :: ps) = k :: keys ps := rfl

theorem lookup_of_notMem {ps : List (JsString × JsValue)} {k : JsString} (h : k ∉ keys ps) :
    lookup ps k = .undefined := by
  induction ps with
  | nil => rfl
  | cons p ps ih =>
    obtain ⟨k', v⟩ := p
    rw [keys_cons, List.mem_cons, not_or] at h
    rw [lookup_cons, if_neg (Ne.symm h.1), ih h.2]

theorem lookup_of_mem {ps : List (JsString × JsValue)} {k : JsString} {v : JsValue}
    (hnd : (keys ps).Nodup) (h : (k, v) ∈ ps) : lookup ps k = v := by
  induction ps with
  | nil => cases h
  | cons p ps ih =>
    obtain ⟨k', w⟩ := p
    rw [keys_cons, List.nodup_cons] at hnd
    rw [lookup_cons]
    rcases List.mem_cons.1 h with heq | hmem
    · rw [(Prod.mk.inj heq).1, (Prod.mk.inj heq).2, if_pos rfl]
    · have hk : k ∈ keys ps := List.mem_map_of_mem hmem
      have hne : k' ≠ k := fun he => hnd.1 (he ▸ hk)
      rw [if_neg hne, ih hnd.2 hmem]

theorem setProp_of_notMem {ps : List (JsString × JsValue)} {k : JsString} (v : JsValue)
    (h : k ∉ keys ps) : setProp ps k v = ps ++ [(k, v)] := by
  induction ps with
  | nil => rfl
  | cons p ps ih =>
    obtain ⟨k', w⟩ := p
    rw [keys_cons, List.mem_cons, not_or] at h
    rw [setProp, if_neg (Ne.symm h.1), ih h.2, List.cons_append]

/-- What a write leaves to be read. -/
@[simp] theorem lookup_setProp (ps : List (JsString × JsValue)) (k k' : JsString) (v : JsValue) :
    lookup (setProp ps k v) k' = if k = k' then v else lookup ps k' := by
  induction ps with
  | nil => rfl
  | cons p ps ih =>
    obtain ⟨k₀, w⟩ := p
    rw [setProp]
    by_cases h : k₀ = k
    · subst h
      rw [if_pos rfl, lookup_cons, lookup_cons]
      by_cases hk : k₀ = k'
      · rw [if_pos hk, if_pos hk]
      · rw [if_neg hk, if_neg hk, if_neg hk]
    · rw [if_neg h, lookup_cons, lookup_cons, ih]
      by_cases hk : k₀ = k'
      · rw [if_pos hk, if_pos hk, if_neg fun he => h (hk.trans he.symm)]
      · rw [if_neg hk, if_neg hk]

theorem keys_setProp (ps : List (JsString × JsValue)) (k : JsString) (v : JsValue) :
    keys (setProp ps k v) = if k ∈ keys ps then keys ps else keys ps ++ [k] := by
  induction ps with
  | nil => rfl
  | cons p ps ih =>
    obtain ⟨k', w⟩ := p
    rw [setProp]
    by_cases h : k' = k
    · rw [if_pos h, keys_cons, keys_cons, if_pos (List.mem_cons.2 (Or.inl h.symm)), h]
    · rw [if_neg h, keys_cons, keys_cons, ih]
      by_cases hmem : k ∈ keys ps
      · rw [if_pos hmem, if_pos (List.mem_cons_of_mem k' hmem)]
      · rw [if_neg hmem, if_neg (List.not_mem_cons_of_ne_of_not_mem (Ne.symm h) hmem),
          List.cons_append]

theorem nodup_setProp {ps : List (JsString × JsValue)} (k : JsString) (v : JsValue)
    (h : (keys ps).Nodup) : (keys (setProp ps k v)).Nodup := by
  rw [keys_setProp]
  split
  · exact h
  · rename_i hk
    exact h.append (List.nodup_singleton k) (List.disjoint_singleton.2 hk)

theorem foldl_setProp {ms ps : List (JsString × JsValue)} (h : (keys (ps ++ ms)).Nodup) :
    ms.foldl (fun qs m => setProp qs m.1 m.2) ps = ps ++ ms := by
  induction ms generalizing ps with
  | nil => rw [List.foldl_nil, List.append_nil]
  | cons m ms ih =>
    have hsplit : ps ++ m :: ms = (ps ++ [m]) ++ ms := by rw [List.append_assoc]; rfl
    have hfresh : m.1 ∉ keys ps := by
      unfold keys at h
      rw [List.map_append, List.nodup_append] at h
      exact fun hmem => h.2.2 _ hmem m.1 List.mem_cons_self rfl
    rw [List.foldl_cons, setProp_of_notMem _ hfresh, ih (hsplit ▸ h), ← hsplit]

theorem mem_setProp {ps : List (JsString × JsValue)} {k : JsString} {v : JsValue}
    {p : JsString × JsValue} (h : p ∈ setProp ps k v) : p ∈ ps ∨ p.2 = v := by
  induction ps with
  | nil =>
    rw [setProp, List.mem_singleton] at h
    exact Or.inr (by rw [h])
  | cons q ps ih =>
    obtain ⟨k', w⟩ := q
    rw [setProp] at h
    split at h
    · rcases List.mem_cons.1 h with rfl | h
      · exact Or.inr rfl
      · exact Or.inl (List.mem_cons_of_mem _ h)
    · rcases List.mem_cons.1 h with rfl | h
      · exact Or.inl List.mem_cons_self
      · exact (ih h).imp_left (List.mem_cons_of_mem _)

/-- What writing one member after the other keeps. -/
theorem ofMembers_induction {P : List (JsString × JsValue) → Prop}
    {ms : List (JsString × JsValue)} (hnil : P [])
    (hset : ∀ ps, ∀ m ∈ ms, P ps → P (setProp ps m.1 m.2)) : P (ofMembers ms) := by
  have hfold : ∀ ps, P ps → P (ms.foldl (fun ps m => setProp ps m.1 m.2) ps) := by
    induction ms with
    | nil => exact fun _ h => h
    | cons m ms ih =>
      intro ps hps
      exact ih (fun ps m' hm' => hset ps m' (List.mem_cons_of_mem m hm')) _
        (hset ps m List.mem_cons_self hps)
  exact hfold [] hnil

theorem nodup_ofMembers (ms : List (JsString × JsValue)) : (keys (ofMembers ms)).Nodup :=
  ofMembers_induction (P := fun ps => (keys ps).Nodup) List.nodup_nil
    fun _ m _ h => nodup_setProp m.1 m.2 h

theorem mem_ofMembers {ms : List (JsString × JsValue)} :
    ∀ p ∈ ofMembers ms, ∃ m ∈ ms, p.2 = m.2 := by
  refine ofMembers_induction (P := fun ps => ∀ p ∈ ps, ∃ m ∈ ms, p.2 = m.2) ?_ ?_
  · intro p hp
    cases hp
  · intro ps m hm hps p hp
    rcases mem_setProp hp with hp | hp
    · exact hps p hp
    · exact ⟨m, hm, hp⟩

/-- **Members with different names stand as they are written.** -/
theorem ofMembers_eq_self {ms : List (JsString × JsValue)} (h : (keys ms).Nodup) :
    ofMembers ms = ms := by
  rw [ofMembers, foldl_setProp (by rwa [List.nil_append]), List.nil_append]

end SealedSky.Js
