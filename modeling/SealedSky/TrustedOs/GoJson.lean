import SealedSky.TrustedOs.JsonRpc
import Mathlib.Data.Nat.Init

/-!
# Reading values with `encoding/json`

`readValue` is what a `json.Decoder` takes off a connection: one value, with space in front of it. The
scanner gives up on a bracket inside 10000 others; `depth` counts the brackets that may still open.

* `consumes` — whatever is read leaves less of the bytes.
* `value_fuel` — the fuel of `readValue` is enough for every input.
* `spells_literal` — a literal is read as its text.
* `readValue_two` — so is an object of two strings.
-/
namespace SealedSky.TrustedOs

open Utf8 Scan JsonText

/-- A value, a number as its text. -/
inductive GoValue where
  | null
  | bool (b : Bool)
  | num (text : List UInt8)
  | str (s : String)
  | arr (vs : List GoValue)
  | obj (ms : List (String × GoValue))

/-- `maxNestingDepth` of the scanner. -/
def maxNestingDepth : Nat := 10000

namespace GoJson

def isSpace (b : UInt8) : Bool := b == 32 || b == 9 || b == 13 || b == 10

def isDigit (b : UInt8) : Bool := decide (48 ≤ b.toNat ∧ b.toNat ≤ 57)

/-- The first byte that is no space, and the bytes behind it. -/
def token (bs : List UInt8) : Option (UInt8 × List UInt8) :=
  match bs.dropWhile isSpace with
  | [] => none
  | b :: r => some (b, r)

/-! ## Leaves -/

/-- One digit or more. -/
def digits (bs : List UInt8) : Option (List UInt8 × List UInt8) :=
  if bs.takeWhile isDigit = [] then none else some (bs.takeWhile isDigit, bs.dropWhile isDigit)

/-- An optional byte, and the bytes behind it. -/
def optional (marks : List UInt8) : List UInt8 → List UInt8 × List UInt8
  | [] => ([], [])
  | b :: r => if b ∈ marks then ([b], r) else ([], b :: r)

/-- A zero stands alone. -/
def intPart (bs : List UInt8) : Option (List UInt8 × List UInt8) :=
  if bs.head? = some 48 then some ([48], bs.tail) else digits bs

def fracPart (bs : List UInt8) : Option (List UInt8 × List UInt8) :=
  if bs.head? = some 46 then (digits bs.tail).map fun p => (46 :: p.1, p.2) else some ([], bs)

def expPart (bs : List UInt8) : Option (List UInt8 × List UInt8) :=
  let e := optional [101, 69] bs
  if e.1 = [] then some ([], bs)
  else
    let sign := optional [43, 45] e.2
    (digits sign.2).map fun p => (e.1 ++ sign.1 ++ p.1, p.2)

/-- The number at the start of the bytes. -/
def number (bs : List UInt8) : Option (GoValue × List UInt8) :=
  let sign := optional [45] bs
  (intPart sign.2).bind fun i =>
    (fracPart i.2).bind fun f =>
      (expPart f.2).map fun e => (.num (sign.1 ++ i.1 ++ f.1 ++ e.1), e.2)

def word (w : List UInt8) (v : GoValue) (bs : List UInt8) : Option (GoValue × List UInt8) :=
  if w.isPrefixOf bs then some (v, bs.drop w.length) else none

/-- The string behind an opening quote. -/
def text (bs : List UInt8) : Option (String × List UInt8) :=
  (unquote (bs.length + 1) bs).map fun p => (String.ofList p.1, p.2)

/-! ## Values -/

section
variable {α : Type} (close : UInt8) (more : List UInt8 → Option (List α × List UInt8))

/-- Behind an opening bracket: nothing up to the closing one, or `more`. -/
def bracketed (wrap : List α → GoValue) (bs : List UInt8) : Option (GoValue × List UInt8) :=
  (token bs).bind fun q =>
    if q.1 = close then some (wrap [], q.2)
    else (more (q.1 :: q.2)).map fun t => (wrap t.1, t.2)

/-- Behind an element: the closing bracket, or a comma and `more`. -/
def followed (x : α) (bs : List UInt8) : Option (List α × List UInt8) :=
  (token bs).bind fun q =>
    if q.1 = close then some ([x], q.2)
    else if q.1 = 44 then (more q.2).map fun t => (x :: t.1, t.2)
    else none

end

/-- The name of a member and its colon. -/
def memberName (bs : List UInt8) : Option (String × List UInt8) :=
  (token bs).bind fun q =>
    if q.1 = 34 then
      (text q.2).bind fun k =>
        (token k.2).bind fun c => if c.1 = 58 then some (k.1, c.2) else none
    else none

mutual

/-- A value with space in front of it, and the bytes behind it. -/
def value : Nat → Nat → List UInt8 → Option (GoValue × List UInt8)
  | _, 0, _ => none
  | depth, f + 1, bs =>
    (token bs).bind fun q =>
      if q.1 = 123 then
        if depth = 0 then none else bracketed 125 (members (depth - 1) f) .obj q.2
      else if q.1 = 91 then
        if depth = 0 then none else bracketed 93 (elements (depth - 1) f) .arr q.2
      else if q.1 = 34 then (text q.2).map fun p => (.str p.1, p.2)
      else if q.1 = 116 then word (bytes "true") (.bool true) (q.1 :: q.2)
      else if q.1 = 102 then word (bytes "false") (.bool false) (q.1 :: q.2)
      else if q.1 = 110 then word (bytes "null") .null (q.1 :: q.2)
      else number (q.1 :: q.2)

/-- The elements up to a closing bracket. -/
def elements : Nat → Nat → List UInt8 → Option (List GoValue × List UInt8)
  | _, 0, _ => none
  | depth, f + 1, bs =>
    (value depth f bs).bind fun p => followed 93 (elements depth f) p.1 p.2

/-- The members up to a closing brace. -/
def members : Nat → Nat → List UInt8 → Option (List (String × GoValue) × List UInt8)
  | _, 0, _ => none
  | depth, f + 1, bs =>
    (memberName bs).bind fun k =>
      (value depth f k.2).bind fun p => followed 125 (members depth f) (k.1, p.1) p.2

end

/-- `Decode`, up to the end of the first value. -/
def readValue (bs : List UInt8) : Option (GoValue × List UInt8) :=
  value maxNestingDepth (2 * bs.length + 1) bs

/-! ## What is read leaves less -/

/-- What is read off the bytes leaves less of them. -/
def Consumes {α : Type} (read : List UInt8 → Option (α × List UInt8)) : Prop :=
  ∀ bs v r, read bs = some (v, r) → r.length < bs.length

theorem token_length {bs r : List UInt8} {b : UInt8} (h : token bs = some (b, r)) :
    r.length < bs.length := by
  have hspace : (bs.dropWhile isSpace).length ≤ bs.length :=
    (List.dropWhile_suffix isSpace).length_le
  unfold token at h
  split at h
  · cases h
  · rename_i hs
    obtain ⟨-, rfl⟩ := Prod.mk.inj (Option.some.inj h)
    rw [hs, List.length_cons] at hspace
    omega

theorem text_length : Consumes text := by
  intro bs s r h
  obtain ⟨⟨cs, r'⟩, hu, heq⟩ := Option.map_eq_some_iff.1 h
  obtain ⟨body, rfl, -⟩ := unquote_closing hu
  cases heq
  simp only [List.length_append, List.length_cons]
  omega

theorem digits_length : Consumes digits := by
  intro bs ds r h
  unfold digits at h
  split at h
  · cases h
  · rename_i hne
    cases h
    have hpos := List.length_pos_of_ne_nil hne
    have hsplit := congrArg List.length (List.takeWhile_append_dropWhile (p := isDigit) (l := bs))
    rw [List.length_append] at hsplit
    omega

theorem optional_length (marks bs : List UInt8) : (optional marks bs).2.length ≤ bs.length := by
  cases bs with
  | nil => exact Nat.le_refl _
  | cons b r =>
    by_cases h : b ∈ marks
    · simp [optional, h]
    · simp [optional, h]

theorem number_length : Consumes number := by
  intro bs v r h
  obtain ⟨⟨i, r₁⟩, hi, h⟩ := Option.bind_eq_some_iff.1 h
  obtain ⟨⟨f, r₂⟩, hf, h⟩ := Option.bind_eq_some_iff.1 h
  obtain ⟨⟨e, r₃⟩, he, heq⟩ := Option.map_eq_some_iff.1 h
  cases heq
  have hsign := optional_length [45] bs
  have hint : r₁.length < (optional [45] bs).2.length := by
    unfold intPart at hi
    split at hi
    · rename_i hhead
      cases hi
      obtain ⟨t, ht⟩ := List.head?_eq_some_iff.1 hhead
      rw [ht]
      exact Nat.lt_succ_self _
    · exact digits_length _ _ _ hi
  have hfrac : r₂.length ≤ r₁.length := by
    unfold fracPart at hf
    split at hf
    · obtain ⟨⟨ds, r'⟩, hds, heq⟩ := Option.map_eq_some_iff.1 hf
      cases heq
      have hlt := digits_length _ _ _ hds
      rw [List.length_tail] at hlt
      simp only at hlt ⊢
      omega
    · cases hf
      exact Nat.le_refl _
  have hexp : r₃.length ≤ r₂.length := by
    unfold expPart at he
    simp only at he
    split at he
    · cases he
      exact Nat.le_refl _
    · obtain ⟨⟨ds, r'⟩, hds, heq⟩ := Option.map_eq_some_iff.1 he
      cases heq
      have hlt := digits_length _ _ _ hds
      have hmark := optional_length [101, 69] r₂
      have hsign := optional_length [43, 45] (optional [101, 69] r₂).2
      simp only
      omega
  simp only at hint hfrac hexp ⊢
  omega

theorem word_length {w : List UInt8} (hw : 0 < w.length) (v : GoValue) : Consumes (word w v) := by
  intro bs v' r h
  unfold word at h
  split at h
  · rename_i hpre
    cases h
    have hle := (List.isPrefixOf_iff_prefix.1 hpre).length_le
    rw [List.length_drop]
    omega
  · cases h

section
variable {α : Type} {close : UInt8} {more more' : List UInt8 → Option (List α × List UInt8)}

theorem bracketed_length (hmore : Consumes more) (wrap : List α → GoValue) :
    Consumes (bracketed close more wrap) := by
  intro bs v r h
  obtain ⟨⟨b, t⟩, htoken, h⟩ := Option.bind_eq_some_iff.1 h
  have hlt := token_length htoken
  simp only at h
  split at h
  · cases h
    exact hlt
  · obtain ⟨⟨xs, r'⟩, hxs, heq⟩ := Option.map_eq_some_iff.1 h
    cases heq
    have hlen := hmore _ _ _ hxs
    rw [List.length_cons] at hlen
    simp only
    omega

theorem followed_length (hmore : Consumes more) (x : α) : Consumes (followed close more x) := by
  intro bs xs r h
  obtain ⟨⟨b, t⟩, htoken, h⟩ := Option.bind_eq_some_iff.1 h
  have hlt := token_length htoken
  simp only at h
  split at h
  · cases h
    exact hlt
  · split at h
    · obtain ⟨⟨ys, r'⟩, hys, heq⟩ := Option.map_eq_some_iff.1 h
      cases heq
      exact Nat.lt_trans (hmore _ _ _ hys) hlt
    · cases h

/-- Readers that agree on what is no longer agree behind a bracket. -/
theorem bracketed_congr {wrap : List α → GoValue} {bs : List UInt8}
    (h : ∀ t, t.length ≤ bs.length → more t = more' t) :
    bracketed close more wrap bs = bracketed close more' wrap bs := by
  unfold bracketed
  refine Option.bind_congr fun q hq => ?_
  have hlt := token_length hq
  rw [h (q.1 :: q.2) (by rw [List.length_cons]; omega)]

theorem followed_congr {x : α} {bs : List UInt8}
    (h : ∀ t, t.length < bs.length → more t = more' t) :
    followed close more x bs = followed close more' x bs := by
  unfold followed
  refine Option.bind_congr fun q hq => ?_
  rw [h q.2 (token_length hq)]

end

theorem memberName_length : Consumes memberName := by
  intro bs k r h
  obtain ⟨⟨b, t⟩, htoken, h⟩ := Option.bind_eq_some_iff.1 h
  simp only at h
  split at h
  · obtain ⟨⟨k', t'⟩, hk, h⟩ := Option.bind_eq_some_iff.1 h
    obtain ⟨⟨c, t''⟩, hcolon, h⟩ := Option.bind_eq_some_iff.1 h
    have hlt := token_length htoken
    have hname := text_length _ _ _ hk
    have hlt' := token_length hcolon
    simp only at h hlt'
    split at h
    · cases h
      omega
    · cases h
  · cases h

/-- **Whatever is read leaves less of the bytes.** -/
theorem consumes (f : Nat) : ∀ depth,
    Consumes (value depth f) ∧ Consumes (elements depth f) ∧ Consumes (members depth f) := by
  induction f with
  | zero =>
    refine fun depth => ⟨?_, ?_, ?_⟩
    all_goals
      intro bs v r h
      cases h
  | succ f ih =>
    refine fun depth => ⟨?_, ?_, ?_⟩
    · intro bs v r h
      obtain ⟨⟨b, t⟩, htoken, h⟩ := Option.bind_eq_some_iff.1 h
      have hlt := token_length htoken
      -- each reader leaves less than the first byte and the bytes behind it
      suffices hlen : r.length < (b :: t).length by
        rw [List.length_cons] at hlen
        omega
      simp only at h
      split at h
      · split at h
        · cases h
        · exact Nat.lt_succ_of_lt (bracketed_length (ih _).2.2 _ _ _ _ h)
      split at h
      · split at h
        · cases h
        · exact Nat.lt_succ_of_lt (bracketed_length (ih _).2.1 _ _ _ _ h)
      split at h
      · obtain ⟨⟨s, r'⟩, hs, heq⟩ := Option.map_eq_some_iff.1 h
        cases heq
        exact Nat.lt_succ_of_lt (text_length _ _ _ hs)
      split at h
      · exact word_length (by decide) _ _ _ _ h
      split at h
      · exact word_length (by decide) _ _ _ _ h
      split at h
      · exact word_length (by decide) _ _ _ _ h
      · exact number_length _ _ _ h
    · intro bs vs r h
      obtain ⟨⟨v, t⟩, hv, hrest⟩ := Option.bind_eq_some_iff.1 h
      exact Nat.lt_trans (followed_length (ih depth).2.1 _ _ _ _ hrest) ((ih depth).1 _ _ _ hv)
    · intro bs ms r h
      obtain ⟨⟨k, t⟩, hk, h⟩ := Option.bind_eq_some_iff.1 h
      obtain ⟨⟨v, t'⟩, hv, hrest⟩ := Option.bind_eq_some_iff.1 h
      have hmore := followed_length (ih depth).2.2 _ _ _ _ hrest
      exact Nat.lt_trans (Nat.lt_trans hmore ((ih depth).1 _ _ _ hv)) (memberName_length _ _ _ hk)

/-! ## Enough fuel -/

/-- One more unit of fuel changes nothing where there is enough for the length of the bytes. -/
theorem fuel_succ (f : Nat) : ∀ depth,
    (∀ bs, 2 * bs.length + 1 ≤ f → value depth (f + 1) bs = value depth f bs) ∧
      (∀ bs, 2 * bs.length + 2 ≤ f → elements depth (f + 1) bs = elements depth f bs) ∧
      ∀ bs, 2 * bs.length + 2 ≤ f → members depth (f + 1) bs = members depth f bs := by
  induction f with
  | zero =>
    refine fun depth => ⟨?_, ?_, ?_⟩
    all_goals
      intro bs h
      omega
  | succ f ih =>
    refine fun depth => ⟨?_, ?_, ?_⟩
    · intro bs h
      rw [value, value]
      refine Option.bind_congr fun q hq => ?_
      have hlt := token_length hq
      rw [bracketed_congr fun t ht => (ih (depth - 1)).2.2 t (by omega),
        bracketed_congr fun t ht => (ih (depth - 1)).2.1 t (by omega)]
    · intro bs h
      rw [elements, elements, (ih depth).1 bs (by omega)]
      refine Option.bind_congr fun p hp => ?_
      have hlt := (consumes f depth).1 _ _ _ hp
      exact followed_congr fun t ht => (ih depth).2.1 t (by omega)
    · intro bs h
      rw [members, members]
      refine Option.bind_congr fun k hk => ?_
      have hname := memberName_length _ _ _ hk
      rw [(ih depth).1 k.2 (by omega)]
      refine Option.bind_congr fun p hp => ?_
      have hlt := (consumes f depth).1 _ _ _ hp
      exact followed_congr fun t ht => (ih depth).2.2 t (by omega)

/-- **The fuel of `readValue` is enough**: more of it reads the same. -/
theorem value_fuel {depth f : Nat} {bs : List UInt8} (h : 2 * bs.length + 1 ≤ f) :
    value depth f bs = value depth (2 * bs.length + 1) bs := by
  induction f, h using Nat.le_induction with
  | base => rfl
  | succ f hf ih => rw [(fuel_succ f depth).1 bs hf, ih]

/-! ## Texts and objects of texts -/

/-- The bytes stand for the string wherever a quote closes them. -/
def Spells (body : List UInt8) (s : String) : Prop :=
  ∀ r, text (body ++ 34 :: r) = some (s, r)

theorem spells_of_unquote {body : List UInt8} {cs : List Char}
    (h : ∀ n r, body.length < n → unquote n (body ++ 34 :: r) = some (cs, r)) :
    Spells body (String.ofList cs) := by
  intro r
  have hlen : body.length < (body ++ 34 :: r).length + 1 := by
    simp only [List.length_append, List.length_cons]
    omega
  rw [text, h _ r hlen]
  rfl

/-- **A literal is read as its text.** -/
theorem spells_literal {body : List UInt8} {cs : List Char} (h : Literal body cs) :
    Spells body (String.ofList cs) :=
  spells_of_unquote fun _ r hn => unquote_literal h (Nat.lt_of_le_of_lt h.length_le hn) r

theorem token_cons {b : UInt8} (h : isSpace b = false) (r : List UInt8) :
    token (b :: r) = some (b, r) := by
  simp [token, h]

theorem value_spells {body : List UInt8} {s : String} (h : Spells body s) (depth f : Nat)
    (r : List UInt8) : value depth (f + 1) (34 :: (body ++ 34 :: r)) = some (.str s, r) := by
  rw [value, token_cons (by decide), Option.bind_some]
  change (text (body ++ 34 :: r)).map _ = _
  rw [h r]
  rfl

theorem memberName_spells {name : List UInt8} {k : String} (h : Spells name k) (r : List UInt8) :
    memberName (34 :: (name ++ 34 :: 58 :: r)) = some (k, r) := by
  rw [memberName, token_cons (by decide), Option.bind_some, if_pos rfl, h, Option.bind_some,
    token_cons (by decide)]
  rfl

/-- A member that is a string, in front of whatever follows. -/
theorem members_spells {name body : List UInt8} {k s : String} (hname : Spells name k)
    (hbody : Spells body s) (depth f : Nat) (r : List UInt8) :
    members depth (f + 2) (34 :: (name ++ 34 :: 58 :: 34 :: (body ++ 34 :: r))) =
      followed 125 (members depth (f + 1)) (k, .str s) r := by
  rw [members, memberName_spells hname, Option.bind_some]
  simp only [value_spells hbody, Option.bind_some]

theorem followed_close {α : Type} (more : List UInt8 → Option (List α × List UInt8)) (x : α)
    (r : List UInt8) : followed 125 more x (125 :: r) = some ([x], r) := by
  rw [followed, token_cons (by decide)]
  rfl

theorem followed_comma {α : Type} (more : List UInt8 → Option (List α × List UInt8)) (x : α)
    (r : List UInt8) :
    followed 125 more x (44 :: r) = (more r).map fun t => (x :: t.1, t.2) := by
  rw [followed, token_cons (by decide)]
  rfl

theorem value_object {b : UInt8} (hspace : isSpace b = false) (hb : b ≠ 125) {depth f : Nat}
    (hdepth : depth ≠ 0) (r : List UInt8) :
    value depth (f + 1) (123 :: b :: r) =
      (members (depth - 1) f (b :: r)).map fun t => (.obj t.1, t.2) := by
  rw [value, token_cons (by decide), Option.bind_some, if_pos rfl, if_neg hdepth, bracketed,
    token_cons hspace, Option.bind_some, if_neg hb]

/-- **An object of two strings** is read as their names and texts. -/
theorem readValue_two {name body name' body' : List UInt8} {k s k' s' : String}
    (hname : Spells name k) (hbody : Spells body s) (hname' : Spells name' k')
    (hbody' : Spells body' s') (r : List UInt8) :
    readValue (123 :: 34 :: (name ++ 34 :: 58 :: 34 :: (body ++ 34 :: 44 :: 34 ::
        (name' ++ 34 :: 58 :: 34 :: (body' ++ 34 :: 125 :: r))))) =
      some (.obj [(k, .str s), (k', .str s')], r) := by
  unfold readValue
  rw [value_object (by decide) (by decide) (by decide)]
  simp only [List.length_cons, Nat.mul_add, Nat.mul_one]
  rw [members_spells hname hbody, followed_comma, members_spells hname' hbody', followed_close]
  rfl

end GoJson

end SealedSky.TrustedOs
