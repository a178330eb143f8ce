import SealedSky.Js.Digest
import SealedSky.Js.Object

/-!
# `JSON.stringify` and `JSON.parse`

The parser reads values, elements and members with a measure of fuel, two for each level of nesting.

* `consumes` — whatever is read leaves less of the text.
* `value_fuel` — the fuel of `parse` is enough for every text.
-/
namespace SealedSky.Js

/-! ## Printing -/

/-- `\u` and four hexadecimal digits. -/
def unicodeEscape (u : UInt16) : JsString :=
  92 :: 117 :: (hexPair (UInt8.ofNat (u.toNat / 256)) ++ hexPair (UInt8.ofNat (u.toNat % 256)))

/-- A unit that is not part of a surrogate pair. -/
def quotedUnit (u : UInt16) : JsString :=
  if u = 8 then [92, 98]
  else if u = 9 then [92, 116]
  else if u = 10 then [92, 110]
  else if u = 12 then [92, 102]
  else if u = 13 then [92, 114]
  else if u = 34 then [92, 34]
  else if u = 92 then [92, 92]
  else if u.toNat < 32 || isHigh u || isLow u then unicodeEscape u
  else [u]

def quotedBody : JsString → JsString
  | [] => []
  | [u] => quotedUnit u
  | u :: v :: r => if isHigh u && isLow v then u :: v :: quotedBody r
    else quotedUnit u ++ quotedBody (v :: r)

/-- `QuoteJSONString`. -/
def quote (s : JsString) : JsString := 34 :: (quotedBody s ++ [34])

def isUndefined : JsValue → Bool
  | .undefined => true
  | _ => false

mutual

/-- `JSON.stringify(v)`. As an element of an array `undefined` prints as `null`, and so does a number
that is not finite anywhere. -/
def jsonText : JsValue → JsString
  | .undefined => js "null"
  | .null => js "null"
  | .bool b => if b then js "true" else js "false"
  | .num x => if x.isFinite then toString x else js "null"
  | .str s => quote s
  | .arr vs => 91 :: (elementsText vs ++ [93])
  | .obj ps => 123 :: (membersText ps ++ [125])

def elementsText : List JsValue → JsString
  | [] => []
  | v :: vs => jsonText v ++ (if vs.isEmpty then [] else 44 :: elementsText vs)

/-- A member that is `undefined` is left out. -/
def membersText : List (JsString × JsValue) → JsString
  | [] => []
  | (k, v) :: ps =>
    if isUndefined v then membersText ps
    else quote k ++ 58 :: (jsonText v ++
      (if (membersText ps).isEmpty then [] else 44 :: membersText ps))

end

/-- The new line of `JSON.stringify` with a gap, at a depth of `n` spaces. -/
def lineBreak (gap n : ℕ) : JsString := if gap = 0 then [] else 10 :: List.replicate n 32

mutual

/-- `JSON.stringify(v, null, gap)`, at a depth of `n` spaces. -/
def stringify (gap n : ℕ) : JsValue → JsString
  | .undefined => js "null"
  | .null => js "null"
  | .bool b => if b then js "true" else js "false"
  | .num x => if x.isFinite then toString x else js "null"
  | .str s => quote s
  | .arr vs =>
    if vs.isEmpty then [91, 93]
    else 91 :: (lineBreak gap (n + gap) ++
      (elementsStringify gap (n + gap) vs ++ (lineBreak gap n ++ [93])))
  | .obj ps =>
    if (membersStringify gap (n + gap) ps).isEmpty then [123, 125]
    else 123 :: (lineBreak gap (n + gap) ++
      (membersStringify gap (n + gap) ps ++ (lineBreak gap n ++ [125])))

def elementsStringify (gap n : ℕ) : List JsValue → JsString
  | [] => []
  | v :: vs => stringify gap n v ++
      (if vs.isEmpty then [] else 44 :: (lineBreak gap n ++ elementsStringify gap n vs))

def membersStringify (gap n : ℕ) : List (JsString × JsValue) → JsString
  | [] => []
  | (k, v) :: ps =>
    if isUndefined v then membersStringify gap n ps
    else quote k ++ 58 :: ((if gap = 0 then [] else [32]) ++ (stringify gap n v ++
      (if (membersStringify gap n ps).isEmpty then []
        else 44 :: (lineBreak gap n ++ membersStringify gap n ps))))

end

/-! ## Parsing -/

def isJsonSpace (u : UInt16) : Bool := u == 9 || u == 10 || u == 13 || u == 32

def skipSpace (s : JsString) : JsString := s.dropWhile isJsonSpace

def hexVal (u : UInt16) : Option ℕ := radixDigit 16 u

/-- `\uXXXX`. -/
def hexUnit (a b c d : UInt16) : Option UInt16 :=
  (radixInteger 16 [a, b, c, d]).map UInt16.ofNat

/-- What a letter behind a backslash stands for. -/
def simpleEscape (u : UInt16) : Option UInt16 :=
  if u = 34 ∨ u = 92 ∨ u = 47 then some u
  else if u = 98 then some 8
  else if u = 102 then some 12
  else if u = 110 then some 10
  else if u = 114 then some 13
  else if u = 116 then some 9
  else none

/-- A unit in front of a string that is read. -/
def pushUnit (u : UInt16) (p : Option (JsString × JsString)) : Option (JsString × JsString) :=
  p.map fun p => (u :: p.1, p.2)

/-- The string behind an opening quote, and the rest behind its closing quote. -/
def stringBody : JsString → Option (JsString × JsString)
  | [] => none
  | u :: r =>
    if u = 34 then some ([], r)
    else if u = 92 then
      match r with
      | [] => none
      | c :: r =>
        if c = 117 then
          match r with
          | a :: b :: c :: d :: r => (hexUnit a b c d).bind fun u => pushUnit u (stringBody r)
          | _ => none
        else (simpleEscape c).bind fun u => pushUnit u (stringBody r)
    else if u.toNat < 32 then none
    else pushUnit u (stringBody r)

/-- What a number may be written with. -/
def isNumberUnit (u : UInt16) : Bool := (digitVal u).isSome || (js "+-.eE").contains u

/-- A `-` and the text behind it. -/
def minus : JsString → Bool × JsString
  | [] => (false, [])
  | u :: r => if u = 45 then (true, r) else (false, u :: r)

/-- A number of JSON: no leading zero, and digits on both sides of a decimal point. -/
def jsonNumber (t : JsString) : Option JsNum :=
  let (neg, u) := minus t
  let ip := scanDigits u
  if ip.1 = [] ∨ (ip.1.head? = some 0 ∧ ip.1.length ≠ 1) ∨
      (ip.2.head? = some 46 ∧ (fractionDigits ip.2).1 = []) then none
  else (unsignedDecimal u).map fun v => if neg then (ofRat v).neg else ofRat v

/-- The number a text starts with. -/
def number (s : JsString) : Option (JsValue × JsString) :=
  (jsonNumber (s.takeWhile isNumberUnit)).map fun x => (.num x, s.dropWhile isNumberUnit)

/-- The text behind a word. -/
def word (w : JsString) (v : JsValue) (s : JsString) : Option (JsValue × JsString) :=
  if s.take w.length = w then some (v, s.drop w.length) else none

/-- The first unit that is no space, and the text behind it. -/
def next (s : JsString) : Option (UInt16 × JsString) :=
  match skipSpace s with
  | [] => none
  | u :: r => some (u, r)

section
variable {α : Type} (close : UInt16) (more : JsString → Option (List α × JsString))

/-- Behind an opening bracket: nothing up to the closing one, or `more`. -/
def bracketed (wrap : List α → JsValue) (s : JsString) : Option (JsValue × JsString) :=
  (next s).bind fun q =>
    if q.1 = close then some (wrap [], q.2)
    else (more (q.1 :: q.2)).map fun t => (wrap t.1, t.2)

/-- Behind an element: the closing bracket, or a comma and `more`. -/
def followed (x : α) (s : JsString) : Option (List α × JsString) :=
  (next s).bind fun q =>
    if q.1 = close then some ([x], q.2)
    else if q.1 = 44 then (more q.2).map fun t => (x :: t.1, t.2)
    else none

end

/-- The name of a member and its colon. -/
def memberName (s : JsString) : Option (JsString × JsString) :=
  (next s).bind fun q =>
    if q.1 = 34 then
      (stringBody q.2).bind fun k =>
        (next k.2).bind fun c => if c.1 = 58 then some (k.1, c.2) else none
    else none

mutual

/-- A value with space in front of it, and the text behind it. -/
def value : ℕ → JsString → Option (JsValue × JsString)
  | 0, _ => none
  | f + 1, s =>
    (next s).bind fun q =>
      if q.1 = 123 then bracketed 125 (members f) (fun ms => .obj (ofMembers ms)) q.2
      else if q.1 = 91 then bracketed 93 (elements f) .arr q.2
      else if q.1 = 34 then (stringBody q.2).map fun p => (.str p.1, p.2)
      else if q.1 = 116 then word (js "true") (.bool true) (q.1 :: q.2)
      else if q.1 = 102 then word (js "false") (.bool false) (q.1 :: q.2)
      else if q.1 = 110 then word (js "null") .null (q.1 :: q.2)
      else number (q.1 :: q.2)

/-- The elements up to a closing bracket. -/
def elements : ℕ → JsString → Option (List JsValue × JsString)
  | 0, _ => none
  | f + 1, s => (value f s).bind fun p => followed 93 (elements f) p.1 p.2

/-- The members up to a closing brace. -/
def members : ℕ → JsString → Option (List (JsString × JsValue) × JsString)
  | 0, _ => none
  | f + 1, s =>
    (memberName s).bind fun k =>
      (value f k.2).bind fun p => followed 125 (members f) (k.1, p.1) p.2

end

/-- `JSON.parse(s)`, `none` where it throws. The fuel is enough for any text of its length. -/
def parse (s : JsString) : Option JsValue :=
  match value (2 * s.length + 1) s with
  | some (v, r) => if skipSpace r = [] then some v else none
  | none => none

/-! ## What a value starts with -/

def words : List (JsString × JsValue) :=
  [(js "true", .bool true), (js "false", .bool false), (js "null", .null)]

/-- A value from its first unit on. -/
inductive Starts (f : ℕ) (v : JsValue) (r : JsString) : UInt16 → JsString → Prop where
  | object {t} (h : bracketed 125 (members f) (fun ms => .obj (ofMembers ms)) t = some (v, r)) :
    Starts f v r 123 t
  | array {t} (h : bracketed 93 (elements f) .arr t = some (v, r)) : Starts f v r 91 t
  | string {t x} (h : stringBody t = some (x, r)) (hv : v = .str x) : Starts f v r 34 t
  | word {u t w v'} (hw : (w, v') ∈ words) (hu : w.head? = some u)
    (h : word w v' (u :: t) = some (v, r)) : Starts f v r u t
  | number {u t} (hu : u ∉ ([123, 91, 34, 116, 102, 110] : JsString))
    (h : number (u :: t) = some (v, r)) : Starts f v r u t

theorem value_eq_some {f : ℕ} {s r : JsString} {v : JsValue} :
    value (f + 1) s = some (v, r) ↔ ∃ u t, next s = some (u, t) ∧ Starts f v r u t := by
  constructor
  · intro h
    obtain ⟨⟨u, t⟩, hnext, h⟩ := Option.bind_eq_some_iff.1 h
    refine ⟨u, t, hnext, ?_⟩
    simp only at h
    by_cases hobject : u = 123
    · subst hobject
      exact .object h
    rw [if_neg hobject] at h
    by_cases harray : u = 91
    · subst harray
      exact .array h
    rw [if_neg harray] at h
    by_cases hstring : u = 34
    · subst hstring
      obtain ⟨⟨x, r'⟩, hx, heq⟩ := Option.map_eq_some_iff.1 h
      cases heq
      exact .string hx rfl
    rw [if_neg hstring] at h
    by_cases htrue : u = 116
    · subst htrue
      exact .word (by simp [words]) rfl h
    rw [if_neg htrue] at h
    by_cases hfalse : u = 102
    · subst hfalse
      exact .word (by simp [words]) rfl h
    rw [if_neg hfalse] at h
    by_cases hnull : u = 110
    · subst hnull
      exact .word (by simp [words]) rfl h
    rw [if_neg hnull] at h
    exact .number (by simp [hobject, harray, hstring, htrue, hfalse, hnull]) h
  · rintro ⟨u, t, hnext, hstarts⟩
    rw [value, hnext, Option.bind_some]
    cases hstarts with
    | object h => exact h
    | array h => exact h
    | string h hv =>
      change (stringBody t).map _ = _
      rw [h, hv]
      rfl
    | word hw hu h =>
      simp only [words, List.mem_cons, List.not_mem_nil, or_false, Prod.mk.injEq] at hw
      obtain ⟨rfl, rfl⟩ | ⟨rfl, rfl⟩ | ⟨rfl, rfl⟩ := hw
      all_goals
        cases hu
        exact h
    | number hu h =>
      simp only [List.mem_cons, List.not_mem_nil, or_false, not_or] at hu
      obtain ⟨hobject, harray, hstring, htrue, hfalse, hnull⟩ := hu
      simp only [if_neg hobject, if_neg harray, if_neg hstring, if_neg htrue, if_neg hfalse,
        if_neg hnull]
      exact h

section
variable {α : Type} {close : UInt16} {more : JsString → Option (List α × JsString)}

/-- What stands behind an opening bracket. -/
theorem bracketed_eq_some {wrap : List α → JsValue} {s r : JsString} {v : JsValue} :
    bracketed close more wrap s = some (v, r) ↔ ∃ u t, next s = some (u, t) ∧
      ((u = close ∧ v = wrap [] ∧ r = t) ∨
        (u ≠ close ∧ ∃ xs, more (u :: t) = some (xs, r) ∧ v = wrap xs)) := by
  constructor
  · intro h
    obtain ⟨⟨u, t⟩, hnext, h⟩ := Option.bind_eq_some_iff.1 h
    refine ⟨u, t, hnext, ?_⟩
    simp only at h
    by_cases hclose : u = close
    · rw [if_pos hclose] at h
      cases h
      exact .inl ⟨hclose, rfl, rfl⟩
    · rw [if_neg hclose] at h
      obtain ⟨⟨xs, r'⟩, hxs, heq⟩ := Option.map_eq_some_iff.1 h
      cases heq
      exact .inr ⟨hclose, xs, hxs, rfl⟩
  · rintro ⟨u, t, hnext, ⟨hclose, rfl, rfl⟩ | ⟨hclose, xs, hxs, rfl⟩⟩
    · rw [bracketed, hnext, Option.bind_some, if_pos hclose]
    · rw [bracketed, hnext, Option.bind_some, if_neg hclose, hxs]
      rfl

/-- What stands behind an element. -/
theorem followed_eq_some {x : α} {xs : List α} {s r : JsString} :
    followed close more x s = some (xs, r) ↔ ∃ u t, next s = some (u, t) ∧
      ((u = close ∧ xs = [x] ∧ r = t) ∨
        (u ≠ close ∧ u = 44 ∧ ∃ ys, more t = some (ys, r) ∧ xs = x :: ys)) := by
  constructor
  · intro h
    obtain ⟨⟨u, t⟩, hnext, h⟩ := Option.bind_eq_some_iff.1 h
    refine ⟨u, t, hnext, ?_⟩
    simp only at h
    by_cases hclose : u = close
    · rw [if_pos hclose] at h
      cases h
      exact .inl ⟨hclose, rfl, rfl⟩
    · rw [if_neg hclose] at h
      by_cases hcomma : u = 44
      · rw [if_pos hcomma] at h
        obtain ⟨⟨ys, r'⟩, hys, heq⟩ := Option.map_eq_some_iff.1 h
        cases heq
        exact .inr ⟨hclose, hcomma, ys, hys, rfl⟩
      · rw [if_neg hcomma] at h
        cases h
  · rintro ⟨u, t, hnext, ⟨hclose, rfl, rfl⟩ | ⟨hclose, hcomma, ys, hys, rfl⟩⟩
    · rw [followed, hnext, Option.bind_some, if_pos hclose]
    · rw [followed, hnext, Option.bind_some, if_neg hclose, if_pos hcomma, hys]
      rfl

end

/-- A name is a string and a colon. -/
theorem memberName_eq_some {s k r : JsString} :
    memberName s = some (k, r) ↔ ∃ t t', next s = some (34, t) ∧ stringBody t = some (k, t') ∧
      next t' = some (58, r) := by
  constructor
  · intro h
    obtain ⟨⟨u, t⟩, hnext, h⟩ := Option.bind_eq_some_iff.1 h
    simp only at h
    by_cases hquote : u = 34
    · rw [if_pos hquote] at h
      obtain ⟨⟨k', t'⟩, hk, h⟩ := Option.bind_eq_some_iff.1 h
      obtain ⟨⟨c, t''⟩, hcolon, h⟩ := Option.bind_eq_some_iff.1 h
      simp only at h
      by_cases hc : c = 58
      · rw [if_pos hc] at h
        cases h
        subst hquote hc
        exact ⟨t, t', hnext, hk, hcolon⟩
      · rw [if_neg hc] at h
        cases h
    · rw [if_neg hquote] at h
      cases h
  · rintro ⟨t, t', hnext, hk, hcolon⟩
    rw [memberName, hnext, Option.bind_some, if_pos rfl, hk, Option.bind_some, hcolon,
      Option.bind_some, if_pos rfl]

/-! ## Enough fuel -/

theorem next_length {s r : JsString} {u : UInt16} (h : next s = some (u, r)) :
    r.length < s.length := by
  have hspace : (skipSpace s).length ≤ s.length :=
    (List.dropWhile_suffix isJsonSpace).length_le
  unfold next at h
  split at h
  · cases h
  · rename_i hs
    obtain ⟨-, rfl⟩ := Prod.mk.inj (Option.some.inj h)
    rw [hs, List.length_cons] at hspace
    omega

theorem pushUnit_eq_some {u : UInt16} {p : Option (JsString × JsString)} {x r : JsString}
    (h : pushUnit u p = some (x, r)) : ∃ y, p = some (y, r) ∧ x = u :: y := by
  obtain ⟨⟨y, r'⟩, hp, heq⟩ := Option.map_eq_some_iff.1 h
  obtain ⟨rfl, rfl⟩ := Prod.mk.inj heq
  exact ⟨y, hp, rfl⟩

theorem stringBody_length (s : JsString) :
    ∀ {x r : JsString}, stringBody s = some (x, r) → r.length < s.length := by
  fun_induction stringBody s with
  | case1 =>
    rintro x r ⟨⟩
  | case2 t =>
    rintro x r ⟨⟩
    exact Nat.lt_succ_self _
  | case3 =>
    rintro x r ⟨⟩
  | case4 _ a b c d t ih =>
    intro x r h
    obtain ⟨u, -, hpush⟩ := Option.bind_eq_some_iff.1 h
    obtain ⟨y, hy, -⟩ := pushUnit_eq_some hpush
    have := ih hy
    simp only [List.length_cons]
    omega
  | case5 =>
    rintro x r ⟨⟩
  | case6 _ c t _ ih =>
    intro x r h
    obtain ⟨u, -, hpush⟩ := Option.bind_eq_some_iff.1 h
    obtain ⟨y, hy, -⟩ := pushUnit_eq_some hpush
    have := ih hy
    simp only [List.length_cons]
    omega
  | case7 =>
    rintro x r ⟨⟩
  | case8 u t _ _ _ ih =>
    intro x r h
    obtain ⟨y, hy, -⟩ := pushUnit_eq_some h
    exact Nat.lt_succ_of_lt (ih hy)

theorem word_length {w : JsString} {v v' : JsValue} {s r : JsString} (hw : w ≠ [])
    (h : word w v s = some (v', r)) : r.length < s.length := by
  unfold word at h
  split at h
  · rename_i htake
    obtain ⟨-, rfl⟩ := Prod.mk.inj (Option.some.inj h)
    have hpos : 0 < w.length := List.length_pos_of_ne_nil hw
    have hlen := congrArg List.length htake
    rw [List.length_take] at hlen
    rw [List.length_drop]
    omega
  · cases h

theorem number_length {s r : JsString} {v : JsValue} (h : number s = some (v, r)) :
    r.length < s.length := by
  obtain ⟨x, hx, heq⟩ := Option.map_eq_some_iff.1 h
  obtain ⟨-, rfl⟩ := Prod.mk.inj heq
  have hne : s.takeWhile isNumberUnit ≠ [] := fun hnil => by
    rw [hnil] at hx
    cases hx
  have hpos := List.length_pos_of_ne_nil hne
  have hsplit := congrArg List.length (List.takeWhile_append_dropWhile (p := isNumberUnit) (l := s))
  rw [List.length_append] at hsplit
  omega

section
variable {α : Type} {close : UInt16} {more more' : JsString → Option (List α × JsString)}

/-- What is read off a text leaves less of it. -/
def Consumes (read : JsString → Option (α × JsString)) : Prop :=
  ∀ s v r, read s = some (v, r) → r.length < s.length

theorem bracketed_length (hmore : Consumes more) {wrap : List α → JsValue} {s r : JsString}
    {v : JsValue} (h : bracketed close more wrap s = some (v, r)) : r.length < s.length := by
  obtain ⟨u, t, hnext, ⟨-, -, rfl⟩ | ⟨-, xs, hxs, -⟩⟩ := bracketed_eq_some.1 h
  · exact next_length hnext
  · have hlt := next_length hnext
    have hlen := hmore _ _ _ hxs
    rw [List.length_cons] at hlen
    omega

theorem followed_length (hmore : Consumes more) {x : α} {xs : List α} {s r : JsString}
    (h : followed close more x s = some (xs, r)) : r.length < s.length := by
  obtain ⟨u, t, hnext, ⟨-, -, rfl⟩ | ⟨-, -, ys, hys, -⟩⟩ := followed_eq_some.1 h
  · exact next_length hnext
  · exact (hmore _ _ _ hys).trans (next_length hnext)

/-- Readers that agree on the shorter texts agree behind a bracket. -/
theorem bracketed_congr {wrap : List α → JsValue} {s : JsString}
    (h : ∀ t, t.length ≤ s.length → more t = more' t) :
    bracketed close more wrap s = bracketed close more' wrap s := by
  unfold bracketed
  refine Option.bind_congr fun q hq => ?_
  have hlt := next_length hq
  rw [h (q.1 :: q.2) (by rw [List.length_cons]; omega)]

theorem followed_congr {x : α} {s : JsString}
    (h : ∀ t, t.length < s.length → more t = more' t) :
    followed close more x s = followed close more' x s := by
  unfold followed
  refine Option.bind_congr fun q hq => ?_
  rw [h q.2 (next_length hq)]

end

theorem memberName_length {s k r : JsString} (h : memberName s = some (k, r)) :
    r.length < s.length := by
  obtain ⟨t, t', hnext, hk, hcolon⟩ := memberName_eq_some.1 h
  have hlt := next_length hnext
  have hkey := stringBody_length _ hk
  have hlt' := next_length hcolon
  omega

theorem consumes (f : ℕ) :
    Consumes (value f) ∧ Consumes (elements f) ∧ Consumes (members f) := by
  induction f with
  | zero =>
    refine ⟨?_, ?_, ?_⟩
    all_goals
      intro s v r h
      cases h
  | succ f ih =>
    obtain ⟨ihv, ihe, ihm⟩ := ih
    refine ⟨?_, ?_, ?_⟩
    · intro s v r h
      obtain ⟨u, t, hnext, hstarts⟩ := value_eq_some.1 h
      have hlt := next_length hnext
      -- each reader leaves less than it was given
      suffices hlen : r.length < (u :: t).length by
        rw [List.length_cons] at hlen
        omega
      cases hstarts with
      | object h => exact (bracketed_length ihm h).trans (Nat.lt_succ_self _)
      | array h => exact (bracketed_length ihe h).trans (Nat.lt_succ_self _)
      | string h => exact (stringBody_length _ h).trans (Nat.lt_succ_self _)
      | word hw hu h =>
        refine word_length (fun hnil => ?_) h
        rw [hnil] at hu
        cases hu
      | number hu h => exact number_length h
    · intro s vs r h
      obtain ⟨⟨v, t⟩, hv, hrest⟩ := Option.bind_eq_some_iff.1 h
      exact (followed_length ihe hrest).trans (ihv _ _ _ hv)
    · intro s ms r h
      obtain ⟨⟨k, t⟩, hk, h⟩ := Option.bind_eq_some_iff.1 h
      obtain ⟨⟨v, t'⟩, hv, hrest⟩ := Option.bind_eq_some_iff.1 h
      exact ((followed_length ihm hrest).trans (ihv _ _ _ hv)).trans (memberName_length hk)

/-- One more unit of fuel changes nothing where there is enough for the length of the text. -/
theorem fuel_succ (f : ℕ) :
    (∀ s, 2 * s.length + 1 ≤ f → value (f + 1) s = value f s) ∧
      (∀ s, 2 * s.length + 2 ≤ f → elements (f + 1) s = elements f s) ∧
      ∀ s, 2 * s.length + 2 ≤ f → members (f + 1) s = members f s := by
  induction f with
  | zero =>
    refine ⟨?_, ?_, ?_⟩
    all_goals
      intro s h
      omega
  | succ f ih =>
    obtain ⟨ihv, ihe, ihm⟩ := ih
    refine ⟨?_, ?_, ?_⟩
    · intro s h
      rw [value, value]
      refine Option.bind_congr fun q hq => ?_
      have hlt := next_length hq
      rw [bracketed_congr fun t ht => ihm t (by omega),
        bracketed_congr fun t ht => ihe t (by omega)]
    · intro s h
      rw [elements, elements, ihv s (by omega)]
      refine Option.bind_congr fun p hp => ?_
      have hlt := (consumes f).1 _ _ _ hp
      exact followed_congr fun t ht => ihe t (by omega)
    · intro s h
      rw [members, members]
      refine Option.bind_congr fun k hk => ?_
      have hname := memberName_length hk
      rw [ihv k.2 (by omega)]
      refine Option.bind_congr fun p hp => ?_
      have hlt := (consumes f).1 _ _ _ hp
      exact followed_congr fun t ht => ihm t (by omega)

/-- **The fuel of `parse` is enough**: more of it reads the same. -/
theorem value_fuel {s : JsString} {f : ℕ} (h : 2 * s.length + 1 ≤ f) :
    value f s = value (2 * s.length + 1) s := by
  induction f, h using Nat.le_induction with
  | base => rfl
  | succ f hf ih => rw [(fuel_succ f).1 s hf, ih]

end SealedSky.Js
