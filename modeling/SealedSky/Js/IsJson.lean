import SealedSky.Js.JsonRoundtrip

/-!
# Values of JSON

* `isJson_parse` — `JSON.parse` makes neither `undefined` nor `NaN`.
* `isJson_get` — nor does a property of what it makes, where there is one.
* `asJson_eq_self` — what it makes comes back from a text unless a number was too large.
-/
namespace SealedSky.Js

mutual

/-- A value without `undefined` and without `NaN`, whose objects have each name once. -/
def IsJson : JsValue → Prop
  | .undefined => False
  | .num x => x ≠ .nan
  | .arr vs => ElementsAreJson vs
  | .obj ps => (keys ps).Nodup ∧ MembersAreJson ps
  | .null => True
  | .bool _ => True
  | .str _ => True

def ElementsAreJson : List JsValue → Prop
  | [] => True
  | v :: vs => IsJson v ∧ ElementsAreJson vs

def MembersAreJson : List (JsString × JsValue) → Prop
  | [] => True
  | (_, v) :: ps => IsJson v ∧ MembersAreJson ps

end

theorem membersAreJson_setProp {ps : List (JsString × JsValue)} {v : JsValue} (k : JsString)
    (hv : IsJson v) (h : MembersAreJson ps) : MembersAreJson (setProp ps k v) := by
  induction ps with
  | nil => exact ⟨hv, trivial⟩
  | cons p ps ih =>
    obtain ⟨k', w⟩ := p
    rw [MembersAreJson] at h
    rw [setProp]
    split
    · exact ⟨hv, h.2⟩
    · exact ⟨h.1, ih h.2⟩

theorem membersAreJson_of_mem {ms : List (JsString × JsValue)} (h : MembersAreJson ms) :
    ∀ m ∈ ms, IsJson m.2 := by
  induction ms with
  | nil =>
    intro m hm
    cases hm
  | cons m ms ih =>
    rw [MembersAreJson] at h
    intro m' hm'
    rcases List.mem_cons.1 hm' with rfl | hm'
    · exact h.1
    · exact ih h.2 m' hm'

theorem isJson_ofMembers {ms : List (JsString × JsValue)} (h : MembersAreJson ms) :
    IsJson (.obj (ofMembers ms)) :=
  ⟨nodup_ofMembers ms, ofMembers_induction (P := MembersAreJson) trivial fun _ m hm hps =>
    membersAreJson_setProp m.1 (membersAreJson_of_mem h m hm) hps⟩

theorem jsonNumber_ne_nan {t : JsString} {x : JsNum} (h : jsonNumber t = some x) : x ≠ .nan := by
  have hrat : ∀ v : ℚ, ofRat v ≠ .nan ∧ (ofRat v).neg ≠ .nan := by
    intro v
    unfold ofRat
    split
    · exact ⟨by simp, by simp [JsNum.neg]⟩
    · exact ⟨by simp, by simp [JsNum.neg]⟩
  unfold jsonNumber at h
  simp only at h
  split at h
  · cases h
  · obtain ⟨v, -, rfl⟩ := Option.map_eq_some_iff.1 h
    split
    · exact (hrat v).2
    · exact (hrat v).1

/-- Everything a reader returns meets a predicate. -/
def Returns {α : Type} (P : α → Prop) (read : JsString → Option (α × JsString)) : Prop :=
  ∀ s v r, read s = some (v, r) → P v

section
variable {α : Type} {P : List α → Prop} {close : UInt16}
  {more : JsString → Option (List α × JsString)}

theorem bracketed_returns {wrap : List α → JsValue} (hnil : IsJson (wrap []))
    (hwrap : ∀ xs, P xs → IsJson (wrap xs)) (hmore : Returns P more) :
    Returns IsJson (bracketed close more wrap) := by
  intro s v r h
  obtain ⟨u, t, -, ⟨-, rfl, -⟩ | ⟨-, xs, hxs, rfl⟩⟩ := bracketed_eq_some.1 h
  · exact hnil
  · exact hwrap xs (hmore _ _ _ hxs)

theorem followed_returns {x : α} (hone : P [x]) (hcons : ∀ xs, P xs → P (x :: xs))
    (hmore : Returns P more) : Returns P (followed close more x) := by
  intro s xs r h
  obtain ⟨u, t, -, ⟨-, rfl, -⟩ | ⟨-, -, ys, hys, rfl⟩⟩ := followed_eq_some.1 h
  · exact hone
  · exact hcons ys (hmore _ _ _ hys)

end

theorem word_returns {w : JsString} {v : JsValue} (hv : IsJson v) : Returns IsJson (word w v) := by
  intro s v' r h
  unfold word at h
  split at h
  · obtain ⟨rfl, -⟩ := Prod.mk.inj (Option.some.inj h)
    exact hv
  · cases h

theorem isJson_of_words {w : JsString} {v : JsValue} (h : (w, v) ∈ words) : IsJson v := by
  simp only [words, List.mem_cons, List.not_mem_nil, or_false, Prod.mk.injEq] at h
  obtain ⟨-, rfl⟩ | ⟨-, rfl⟩ | ⟨-, rfl⟩ := h
  all_goals trivial

theorem returns_json (f : ℕ) : Returns IsJson (value f) ∧ Returns ElementsAreJson (elements f) ∧
    Returns MembersAreJson (members f) := by
  induction f with
  | zero =>
    refine ⟨?_, ?_, ?_⟩
    all_goals
      intro s v r h
      cases h
  | succ f ih =>
    obtain ⟨ihv, ihe, ihm⟩ := ih
    refine ⟨?_, ?_, ?_⟩
    · intro s v r h
      have hobj : Returns IsJson (bracketed 125 (members f) fun ms => .obj (ofMembers ms)) :=
        bracketed_returns ⟨List.nodup_nil, trivial⟩ (fun _ => isJson_ofMembers) ihm
      have harr : Returns IsJson (bracketed 93 (elements f) .arr) :=
        bracketed_returns (by trivial) (fun _ hvs => hvs) ihe
      obtain ⟨u, t, -, hstarts⟩ := value_eq_some.1 h
      cases hstarts with
      | object h => exact hobj _ _ _ h
      | array h => exact harr _ _ _ h
      | string _ hv =>
        rw [hv]
        trivial
      | word hw _ h => exact word_returns (isJson_of_words hw) _ _ _ h
      | number _ h =>
        obtain ⟨x, hx, heq⟩ := Option.map_eq_some_iff.1 h
        obtain ⟨rfl, -⟩ := Prod.mk.inj heq
        exact jsonNumber_ne_nan hx
    · intro s vs r h
      obtain ⟨⟨v, t⟩, hv, hrest⟩ := Option.bind_eq_some_iff.1 h
      exact followed_returns ⟨ihv _ _ _ hv, trivial⟩ (fun _ hvs => ⟨ihv _ _ _ hv, hvs⟩) ihe
        _ _ _ hrest
    · intro s ms r h
      obtain ⟨⟨k, t⟩, -, h⟩ := Option.bind_eq_some_iff.1 h
      obtain ⟨⟨v, t'⟩, hv, hrest⟩ := Option.bind_eq_some_iff.1 h
      exact followed_returns ⟨ihv _ _ _ hv, trivial⟩ (fun _ hms => ⟨ihv _ _ _ hv, hms⟩) ihm
        _ _ _ hrest

/-- **`JSON.parse` makes neither `undefined` nor `NaN`.** -/
theorem isJson_parse {s : JsString} {v : JsValue} (h : parse s = some v) : IsJson v := by
  unfold parse at h
  split at h
  · rename_i v' r hread
    split at h
    · cases h
      exact (returns_json _).1 _ _ _ hread
    · cases h
  · cases h

theorem isJson_lookup {ps : List (JsString × JsValue)} (h : MembersAreJson ps) (k : JsString) :
    lookup ps k = .undefined ∨ IsJson (lookup ps k) := by
  induction ps with
  | nil => exact Or.inl rfl
  | cons p ps ih =>
    obtain ⟨k', v⟩ := p
    rw [MembersAreJson] at h
    rw [lookup_cons]
    split
    · exact Or.inr h.1
    · exact ih h.2

theorem isJson_get {v : JsValue} (h : IsJson v) (k : JsString) :
    v.get k = .undefined ∨ IsJson (v.get k) := by
  cases v with
  | obj ps => exact isJson_lookup h.2 k
  | _ => exact Or.inl rfl

/-! ## Values that come back as they are -/

mutual

/-- All numbers of the value are finite. -/
def IsFinite : JsValue → Prop
  | .num x => x.isFinite = true
  | .arr vs => ElementsAreFinite vs
  | .obj ps => MembersAreFinite ps
  | .undefined => True
  | .null => True
  | .bool _ => True
  | .str _ => True

def ElementsAreFinite : List JsValue → Prop
  | [] => True
  | v :: vs => IsFinite v ∧ ElementsAreFinite vs

def MembersAreFinite : List (JsString × JsValue) → Prop
  | [] => True
  | (_, v) :: ps => IsFinite v ∧ MembersAreFinite ps

end

mutual

/-- **A value of JSON comes back as it is**, when its numbers are finite. -/
theorem asJson_eq_self : ∀ v : JsValue, IsJson v → IsFinite v → asJson v = v
  | .undefined, h, _ => by
    rw [IsJson] at h
    cases h
  | .null, _, _ => by rw [asJson]
  | .bool _, _, _ => by rw [asJson]
  | .str _, _, _ => by rw [asJson]
  | .num x, _, hfinite => by
    rw [IsFinite] at hfinite
    rw [asJson, if_pos hfinite]
  | .arr vs, h, hfinite => by
    rw [IsJson] at h
    rw [IsFinite] at hfinite
    rw [asJson, elementsJson_eq_self vs h hfinite]
  | .obj ps, h, hfinite => by
    rw [IsJson] at h
    rw [IsFinite] at hfinite
    exact asJson_obj_of_fixed h.1 (members_asJson ps h.2 hfinite)

theorem elementsJson_eq_self : ∀ vs : List JsValue, ElementsAreJson vs → ElementsAreFinite vs →
    elementsJson vs = vs
  | [], _, _ => rfl
  | v :: vs, h, hfinite => by
    rw [ElementsAreJson] at h
    rw [ElementsAreFinite] at hfinite
    rw [elementsJson, asJson_eq_self v h.1 hfinite.1, elementsJson_eq_self vs h.2 hfinite.2]

theorem members_asJson : ∀ ps : List (JsString × JsValue), MembersAreJson ps →
    MembersAreFinite ps → ∀ p ∈ ps, asJson p.2 = p.2
  | [], _, _, p, hp => by cases hp
  | (k, v) :: ps, h, hfinite, p, hp => by
    rw [MembersAreJson] at h
    rw [MembersAreFinite] at hfinite
    rcases List.mem_cons.1 hp with rfl | hp
    · exact asJson_eq_self v h.1 hfinite.1
    · exact members_asJson ps h.2 hfinite.2 p hp

end

end SealedSky.Js
