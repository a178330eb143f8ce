import SealedSky.Lib.Scan
import SealedSky.Lib.Utf8

/-!
# JSON texts

The grammar of JSON over bytes: `Literal` says which characters a string literal stands for, and
`Derives` which byte strings are values and the parts of values. A surrogate on its own stands for no
character.

`place` reads a text from left to right and counts the open brackets outside literals. A text ends
where it began (`Derives.balanced`), so a byte string that leaves a bracket open is none
(`not_text_of_level`).
-/
namespace SealedSky.JsonText

open Utf8 Scan

/-! ## String literals -/

/-- The byte is a hexadecimal digit of value `n`. -/
def HexDigit (b : UInt8) (n : Nat) : Prop :=
  (n < 10 ∧ b.toNat = 48 + n) ∨ (10 ≤ n ∧ n < 16 ∧ (b.toNat = 87 + n ∨ b.toNat = 55 + n))

instance (b : UInt8) (n : Nat) : Decidable (HexDigit b n) := inferInstanceAs (Decidable (_ ∨ _))

/-- Four hexadecimal digits. -/
inductive Hex4 : List UInt8 → Nat → Prop where
  | digits {a b c d : UInt8} {i j k l : Nat} (ha : HexDigit a i) (hb : HexDigit b j)
      (hc : HexDigit c k) (hd : HexDigit d l) :
    Hex4 [a, b, c, d] (((i * 16 + j) * 16 + k) * 16 + l)

/-- The letters behind a backslash, and what they stand for. -/
def escapes : List (UInt8 × Char) :=
  [(34, '"'), (92, '\\'), (47, '/'), (98, '\x08'), (102, '\x0c'), (110, '\n'), (114, '\r'),
    (116, '\t')]

/-- One character of a literal. -/
inductive Item : List UInt8 → Char → Prop where
  | plain {c : Char} (hc : 0x20 ≤ c.toNat) (hq : c ≠ '"') (he : c ≠ '\\') :
    Item (String.utf8EncodeChar c) c
  | escape {b : UInt8} {c : Char} (h : (b, c) ∈ escapes) : Item [92, b] c
  | unit {ds : List UInt8} {v : Nat} (h : Hex4 ds v) (hv : v.isValidChar) :
    Item (92 :: 117 :: ds) (Char.ofNat v)
  | pair {ds es : List UInt8} {v w : Nat} (h : Hex4 ds v) (h' : Hex4 es w)
      (hv : 0xD800 ≤ v ∧ v < 0xDC00) (hw : 0xDC00 ≤ w ∧ w < 0xE000) :
    Item (92 :: 117 :: (ds ++ 92 :: 117 :: es))
      (Char.ofNat ((v - 0xD800) * 0x400 + (w - 0xDC00) + 0x10000))

/-- The bytes between the quotes of a literal, and the characters they stand for. -/
inductive Literal : List UInt8 → List Char → Prop where
  | nil : Literal [] []
  | cons {bs r : List UInt8} {c : Char} {cs : List Char} (hc : Item bs c) (h : Literal r cs) :
    Literal (bs ++ r) (c :: cs)

theorem Literal.flatMap {α : Type} {f : α → List UInt8} {g : α → Char} {l : List α}
    (h : ∀ a ∈ l, Item (f a) (g a)) : Literal (l.flatMap f) (l.map g) := by
  induction l with
  | nil => exact .nil
  | cons a l ih =>
    rw [List.flatMap_cons, List.map_cons]
    exact .cons (h a List.mem_cons_self) (ih fun b hb => h b (List.mem_cons_of_mem _ hb))

/-- A text without control characters, quotes and backslashes is a literal as it stands. -/
theorem literal_encode {cs : List Char} (h : ∀ c ∈ cs, 0x20 ≤ c.toNat ∧ c ≠ '"' ∧ c ≠ '\\') :
    Literal (encode cs) cs := by
  have hmap := Literal.flatMap (f := String.utf8EncodeChar) (g := id) (l := cs)
    fun c hc => .plain (h c hc).1 (h c hc).2.1 (h c hc).2.2
  rwa [List.map_id] at hmap

theorem Item.ne_nil {bs : List UInt8} {c : Char} (h : Item bs c) : bs ≠ [] := by
  cases h with
  | plain => exact encodeChar_ne_nil c
  | escape => exact List.cons_ne_nil _ _
  | unit => exact List.cons_ne_nil _ _
  | pair => exact List.cons_ne_nil _ _

theorem Literal.length_le {bs : List UInt8} {cs : List Char} (h : Literal bs cs) :
    cs.length ≤ bs.length := by
  induction h with
  | nil => exact Nat.le_refl _
  | cons hc _ ih =>
    have hpos := List.length_pos_iff.2 hc.ne_nil
    rw [List.length_append, List.length_cons]
    omega

/-! ## Literals hold no bare quote -/

/-- A character's bytes hold neither a quote nor an escape, unless it is one. -/
theorem body_encodeChar {c : Char} (hq : c ≠ '"') (he : c ≠ '\\') :
    Body 34 92 (String.utf8EncodeChar c) := by
  by_cases hlt : c.toNat < 0x80
  · have hval : (UInt8.ofNat c.toNat).toNat = c.toNat := by
      rw [UInt8.toNat_ofNat', Nat.mod_eq_of_lt (by omega)]
    rw [encodeChar_ascii hlt]
    refine .plain (fun h => hq ?_) (fun h => he ?_) .nil
    · exact Char.toNat_inj.1 (by rw [← hval, h]; rfl)
    · exact Char.toNat_inj.1 (by rw [← hval, h]; rfl)
  · obtain ⟨_, _, -, -, hall⟩ := encodeChar_nonascii (Nat.le_of_not_lt hlt)
    refine body_of_notMem (fun h => ?_) (fun h => ?_)
    · exact absurd (hall 34 h) (by decide)
    · exact absurd (hall 92 h) (by decide)

theorem HexDigit.ne {b : UInt8} {n : Nat} (h : HexDigit b n) : b ≠ 34 ∧ b ≠ 92 := by
  have hq : (34 : UInt8).toNat = 34 := rfl
  have he : (92 : UInt8).toNat = 92 := rfl
  unfold HexDigit at h
  constructor
  · rintro rfl
    omega
  · rintro rfl
    omega

theorem Hex4.body {ds : List UInt8} {v : Nat} (h : Hex4 ds v) : Body 34 92 ds := by
  cases h with
  | digits ha hb hc hd =>
    exact .plain ha.ne.1 ha.ne.2 (.plain hb.ne.1 hb.ne.2 (.plain hc.ne.1 hc.ne.2
      (.plain hd.ne.1 hd.ne.2 .nil)))

theorem Item.body {bs : List UInt8} {c : Char} (h : Item bs c) : Body 34 92 bs := by
  cases h with
  | plain _ hq he => exact body_encodeChar hq he
  | escape => exact .esc _ .nil
  | unit h => exact .esc 117 h.body
  | pair h h' => exact .esc 117 (h.body.append (.esc 117 h'.body))

theorem Literal.body {bs : List UInt8} {cs : List Char} (h : Literal bs cs) : Body 34 92 bs := by
  induction h with
  | nil => exact .nil
  | cons hc _ ih => exact hc.body.append ih

/-! ## Values -/

def IsSpace (bs : List UInt8) : Prop := ∀ b ∈ bs, b = 32 ∨ b = 9 ∨ b = 10 ∨ b = 13

def Digits (bs : List UInt8) : Prop := bs ≠ [] ∧ ∀ b ∈ bs, 48 ≤ b.toNat ∧ b.toNat ≤ 57

/-- The parts of a number. -/
structure IsNumber (sign int frac exp : List UInt8) : Prop where
  sign : sign = [] ∨ sign = [45]
  int : int = [48] ∨ Digits int ∧ int.head? ≠ some 48
  frac : frac = [] ∨ ∃ ds, Digits ds ∧ frac = 46 :: ds
  exp : exp = [] ∨ ∃ e s ds, (e = 101 ∨ e = 69) ∧ (s = [] ∨ s = [43] ∨ s = [45]) ∧ Digits ds ∧
    exp = e :: (s ++ ds)

/-- The symbols of the grammar. -/
inductive Part where
  | value
  | element
  | elements
  | member
  | members

/-- The byte string is derived from the symbol. -/
inductive Derives : Part → List UInt8 → Prop where
  | word {w : List UInt8} (h : w ∈ [bytes "null", bytes "true", bytes "false"]) : Derives .value w
  | number {s i f e : List UInt8} (h : IsNumber s i f e) : Derives .value (s ++ i ++ f ++ e)
  | string {bs : List UInt8} {cs : List Char} (h : Literal bs cs) :
    Derives .value (34 :: (bs ++ [34]))
  | noElements {w : List UInt8} (h : IsSpace w) : Derives .value (91 :: (w ++ [93]))
  | array {es : List UInt8} (h : Derives .elements es) : Derives .value (91 :: (es ++ [93]))
  | noMembers {w : List UInt8} (h : IsSpace w) : Derives .value (123 :: (w ++ [125]))
  | object {ms : List UInt8} (h : Derives .members ms) : Derives .value (123 :: (ms ++ [125]))
  | element {u v w : List UInt8} (hu : IsSpace u) (h : Derives .value v) (hw : IsSpace w) :
    Derives .element (u ++ (v ++ w))
  | lastElement {e : List UInt8} (h : Derives .element e) : Derives .elements e
  | elements {e es : List UInt8} (h : Derives .element e) (hs : Derives .elements es) :
    Derives .elements (e ++ 44 :: es)
  | member {u k w e : List UInt8} {cs : List Char} (hu : IsSpace u) (hk : Literal k cs)
      (hw : IsSpace w) (h : Derives .element e) :
    Derives .member (u ++ (34 :: (k ++ [34]) ++ (w ++ 58 :: e)))
  | lastMember {m : List UInt8} (h : Derives .member m) : Derives .members m
  | members {m ms : List UInt8} (h : Derives .member m) (hs : Derives .members ms) :
    Derives .members (m ++ 44 :: ms)

/-- A JSON text: one value, with space around it. -/
def IsText (bs : List UInt8) : Prop := Derives .element bs

theorem isSpace_nil : IsSpace [] := by
  intro b hb
  cases hb

/-- A value with no space around it. -/
theorem Derives.tight {v : List UInt8} (h : Derives .value v) : Derives .element v := by
  have he := Derives.element isSpace_nil h isSpace_nil
  rwa [List.append_nil] at he

/-- A member with no space in it. -/
theorem Derives.named {k v : List UInt8} {cs : List Char} (hk : Literal k cs)
    (h : Derives .value v) : Derives .member (34 :: (k ++ 34 :: 58 :: v)) := by
  have hm := Derives.member isSpace_nil hk isSpace_nil h.tight
  simpa using hm

/-! ## Open brackets -/

inductive Mode where
  | outside
  | inside
  | escaped
  deriving DecidableEq

/-- How many brackets are open, and where in a literal the reader stands, if in one. -/
structure Place where
  level : Nat
  mode : Mode
  deriving DecidableEq

def Place.next (s : Place) (b : UInt8) : Place :=
  match s.mode with
  | .escaped => ⟨s.level, .inside⟩
  | .inside => ⟨s.level, if b = 92 then .escaped else if b = 34 then .outside else .inside⟩
  | .outside =>
    if b = 34 then ⟨s.level, .inside⟩
    else if b = 91 ∨ b = 123 then ⟨s.level + 1, .outside⟩
    else if b = 93 ∨ b = 125 then ⟨s.level - 1, .outside⟩
    else s

/-- Where the reader stands behind the bytes. -/
def place (s : Place) (bs : List UInt8) : Place := bs.foldl Place.next s

@[simp] theorem place_nil (s : Place) : place s [] = s := rfl

@[simp] theorem place_cons (s : Place) (b : UInt8) (bs : List UInt8) :
    place s (b :: bs) = place (s.next b) bs := rfl

@[simp] theorem place_append (s : Place) (as bs : List UInt8) :
    place s (as ++ bs) = place (place s as) bs := List.foldl_append

/-- A byte that is no quote and no bracket. -/
def Neutral (b : UInt8) : Prop := b ≠ 34 ∧ b ≠ 91 ∧ b ≠ 123 ∧ b ≠ 93 ∧ b ≠ 125

instance (b : UInt8) : Decidable (Neutral b) := inferInstanceAs (Decidable (_ ∧ _))

theorem place_neutral (d : Nat) {bs : List UInt8} (h : ∀ b ∈ bs, Neutral b) :
    place ⟨d, .outside⟩ bs = ⟨d, .outside⟩ := by
  induction bs with
  | nil => rfl
  | cons b bs ih =>
    obtain ⟨h1, h2, h3, h4, h5⟩ := h b List.mem_cons_self
    have hstep : Place.next ⟨d, .outside⟩ b = ⟨d, .outside⟩ := by simp [Place.next, h1, h2, h3, h4, h5]
    rw [place_cons, hstep, ih fun c hc => h c (List.mem_cons_of_mem _ hc)]

theorem place_body (d : Nat) {bs : List UInt8} (h : Body 34 92 bs) :
    place ⟨d, .inside⟩ bs = ⟨d, .inside⟩ := by
  induction h with
  | nil => rfl
  | plain hq he _ ih =>
    rw [place_cons]
    simpa [Place.next, hq, he] using ih
  | esc c _ ih =>
    rw [place_cons, place_cons]
    exact ih

/-- No bracket counts inside a literal. -/
theorem level_take_body (d : Nat) {bs : List UInt8} (h : Body 34 92 bs) (n : Nat) :
    (place ⟨d, .inside⟩ (bs.take n)).level = d := by
  induction h generalizing n with
  | nil => simp
  | plain hq he _ ih =>
    cases n with
    | zero => rfl
    | succ n =>
      rw [List.take_succ_cons, place_cons]
      simpa [Place.next, hq, he] using ih n
  | esc c _ ih =>
    cases n with
    | zero => rfl
    | succ n =>
      cases n with
      | zero => rfl
      | succ n =>
        rw [List.take_succ_cons, List.take_succ_cons, place_cons, place_cons]
        exact ih n

theorem place_quoted (d : Nat) {bs : List UInt8} (h : Body 34 92 bs) :
    place ⟨d, .outside⟩ (34 :: (bs ++ [34])) = ⟨d, .outside⟩ := by
  have hopen : Place.next ⟨d, .outside⟩ 34 = ⟨d, .inside⟩ := rfl
  rw [place_cons, hopen, place_append, place_body d h]
  rfl

theorem IsSpace.neutral {bs : List UInt8} (h : IsSpace bs) : ∀ b ∈ bs, Neutral b := by
  intro b hb
  rcases h b hb with rfl | rfl | rfl | rfl
  all_goals simp [Neutral]

theorem Digits.neutral {bs : List UInt8} (h : Digits bs) : ∀ b ∈ bs, Neutral b := by
  intro b hb
  have hdigit := h.2 b hb
  refine ⟨?_, ?_, ?_, ?_, ?_⟩
  all_goals
    rintro rfl
    exact absurd hdigit (by decide)

theorem IsNumber.neutral {s i f e : List UInt8} (h : IsNumber s i f e) :
    ∀ b ∈ s ++ i ++ f ++ e, Neutral b := by
  have hs : ∀ b ∈ s, Neutral b := by
    rcases h.sign with rfl | rfl
    · decide
    · decide
  have hi : ∀ b ∈ i, Neutral b := by
    rcases h.int with rfl | ⟨hd, -⟩
    · decide
    · exact hd.neutral
  have hf : ∀ b ∈ f, Neutral b := by
    rcases h.frac with rfl | ⟨ds, hd, rfl⟩
    · decide
    · exact List.forall_mem_cons.2 ⟨by decide, hd.neutral⟩
  have he : ∀ b ∈ e, Neutral b := by
    rcases h.exp with rfl | ⟨c, t, ds, hc, ht, hd, rfl⟩
    · decide
    · refine List.forall_mem_cons.2 ⟨?_, List.forall_mem_append.2 ⟨?_, hd.neutral⟩⟩
      · rcases hc with rfl | rfl
        · decide
        · decide
      · rcases ht with rfl | rfl | rfl
        · decide
        · decide
        · decide
  exact List.forall_mem_append.2 ⟨List.forall_mem_append.2 ⟨List.forall_mem_append.2 ⟨hs, hi⟩, hf⟩, he⟩

theorem place_bracketed (d : Nat) {l r : UInt8} (hl : l = 91 ∨ l = 123) (hr : r = 93 ∨ r = 125)
    {bs : List UInt8} (h : place ⟨d + 1, .outside⟩ bs = ⟨d + 1, .outside⟩) :
    place ⟨d, .outside⟩ (l :: (bs ++ [r])) = ⟨d, .outside⟩ := by
  have hopen : Place.next ⟨d, .outside⟩ l = ⟨d + 1, .outside⟩ := by
    rcases hl with rfl | rfl
    · rfl
    · rfl
  rw [place_cons, hopen, place_append, h]
  rcases hr with rfl | rfl
  · rfl
  · rfl

/-- **A text closes the brackets it opens.** -/
theorem Derives.balanced {p : Part} {bs : List UInt8} (h : Derives p bs) (d : Nat) :
    place ⟨d, .outside⟩ bs = ⟨d, .outside⟩ := by
  have hcomma : ∀ d, Place.next ⟨d, .outside⟩ 44 = ⟨d, .outside⟩ := fun _ => rfl
  induction h generalizing d with
  | word h =>
    refine place_neutral d ?_
    simp only [List.mem_cons, List.not_mem_nil, or_false] at h
    rcases h with rfl | rfl | rfl
    · decide
    · decide
    · decide
  | number h => exact place_neutral d h.neutral
  | string h => exact place_quoted d h.body
  | noElements h => exact place_bracketed d (.inl rfl) (.inl rfl) (place_neutral _ h.neutral)
  | array _ ih => exact place_bracketed d (.inl rfl) (.inl rfl) (ih _)
  | noMembers h => exact place_bracketed d (.inr rfl) (.inr rfl) (place_neutral _ h.neutral)
  | object _ ih => exact place_bracketed d (.inr rfl) (.inr rfl) (ih _)
  | element hu _ hw ih =>
    rw [place_append, place_append, place_neutral d hu.neutral, ih, place_neutral d hw.neutral]
  | lastElement _ ih => exact ih d
  | elements _ _ ih ihs => rw [place_append, ih, place_cons, hcomma, ihs]
  | member hu hk hw _ ih =>
    have hcolon : Place.next ⟨d, .outside⟩ 58 = ⟨d, .outside⟩ := rfl
    rw [place_append, place_append, place_append, place_neutral d hu.neutral,
      place_quoted d hk.body, place_neutral d hw.neutral, place_cons, hcolon, ih]
  | lastMember _ ih => exact ih d
  | members _ _ ih ihs => rw [place_append, ih, place_cons, hcomma, ihs]

theorem not_text_of_level {bs : List UInt8} (h : (place ⟨0, .outside⟩ bs).level ≠ 0) :
    ¬ IsText bs := by
  intro htext
  exact h (congrArg Place.level (htext.balanced 0))

end SealedSky.JsonText
