import Mathlib.Data.List.Basic

/-!
# UTF-8 byte strings

`encode` is the UTF-8 form of a text (`String.utf8EncodeChar` character by character) and `decode?`
the strict decoder: it accepts a byte string exactly if it is the UTF-8 form of some text
(`decode?_encode`, `decode?_sound`), refusing overlong forms, surrogates and truncated characters.

`isCharBoundary`, `sliceFrom?` and `sliceTo?` are the string slices of a language whose strings are
checked UTF-8: an index out of range or inside a character is refused. `sliceFrom?_after_ascii` and
`sliceTo?_before_ascii` are the rules that make slicing next to an ASCII byte safe.
-/
namespace SealedSky.Utf8

/-- Bytes, code units and characters are finitely many, but a statement about those in a list is
decided along the list. -/
instance (priority := high) decidableForallMem {α : Type} (l : List α) (p : α → Prop)
    [DecidablePred p] : Decidable (∀ x ∈ l, p x) :=
  List.decidableBAll p l

/-! ## Encoding -/

def encode (cs : List Char) : List UInt8 := cs.flatMap String.utf8EncodeChar

/-- The bytes of a string literal. -/
def bytes (s : String) : List UInt8 := encode s.toList

theorem encode_toList (s : String) : encode s.toList = bytes s := rfl

@[simp] theorem encode_nil : encode [] = [] := rfl

@[simp] theorem encode_cons (c : Char) (cs : List Char) :
    encode (c :: cs) = String.utf8EncodeChar c ++ encode cs := rfl

@[simp] theorem encode_append (cs ds : List Char) : encode (cs ++ ds) = encode cs ++ encode ds := by
  simp [encode]

/-- `10xxxxxx`. -/
def isCont (b : UInt8) : Bool := decide (0x80 ≤ b.toNat ∧ b.toNat < 0xC0)

theorem encodeChar_ascii {c : Char} (h : c.toNat < 0x80) :
    String.utf8EncodeChar c = [UInt8.ofNat c.toNat] := by
  have h' : c.val.toNat ≤ 0x7f := by
    have : c.val.toNat < 0x80 := h
    omega
  unfold String.utf8EncodeChar
  rw [if_pos h']
  rfl

theorem encodeChar_ne_nil (c : Char) : String.utf8EncodeChar c ≠ [] := String.utf8EncodeChar_ne_nil

/-- The bytes of a character outside ASCII are all outside ASCII, and the first is no continuation. -/
theorem encodeChar_nonascii {c : Char} (h : 0x80 ≤ c.toNat) :
    ∃ a as, String.utf8EncodeChar c = a :: as ∧ 0xC0 ≤ a.toNat ∧
      ∀ b ∈ String.utf8EncodeChar c, 0x80 ≤ b.toNat := by
  have h' : ¬ c.val.toNat ≤ 0x7f := by
    have : 0x80 ≤ c.val.toNat := h
    omega
  unfold String.utf8EncodeChar
  rw [if_neg h']
  split
  · refine ⟨_, _, rfl, ?_, ?_⟩
    · simp only [UInt8.toNat_ofNat', Nat.reducePow]; omega
    · intro b hb
      simp only [List.mem_cons, List.not_mem_nil, or_false] at hb
      rcases hb with rfl | rfl <;> simp only [UInt8.toNat_ofNat', Nat.reducePow] <;> omega
  · split
    · refine ⟨_, _, rfl, ?_, ?_⟩
      · simp only [UInt8.toNat_ofNat', Nat.reducePow]; omega
      · intro b hb
        simp only [List.mem_cons, List.not_mem_nil, or_false] at hb
        rcases hb with rfl | rfl | rfl <;> simp only [UInt8.toNat_ofNat', Nat.reducePow] <;> omega
    · refine ⟨_, _, rfl, ?_, ?_⟩
      · simp only [UInt8.toNat_ofNat', Nat.reducePow]; omega
      · intro b hb
        simp only [List.mem_cons, List.not_mem_nil, or_false] at hb
        rcases hb with rfl | rfl | rfl | rfl <;>
          simp only [UInt8.toNat_ofNat', Nat.reducePow] <;> omega

/-! ## Decoding -/

/-- The character the bytes start with, and the bytes after it. -/
def next : List UInt8 → Option (Char × List UInt8)
  | [] => none
  | a :: r =>
    if a.toNat < 0x80 then some (Char.ofNat a.toNat, r)
    else if a.toNat < 0xC0 then none
    else if a.toNat < 0xE0 then
      match r with
      | b :: r =>
        let v := (a.toNat - 0xC0) * 64 + (b.toNat - 0x80)
        if isCont b ∧ 0x80 ≤ v then some (Char.ofNat v, r) else none
      | [] => none
    else if a.toNat < 0xF0 then
      match r with
      | b :: c :: r =>
        let v := (a.toNat - 0xE0) * 4096 + (b.toNat - 0x80) * 64 + (c.toNat - 0x80)
        if isCont b ∧ isCont c ∧ 0x800 ≤ v ∧ v.isValidChar then some (Char.ofNat v, r) else none
      | _ => none
    else
      match r with
      | b :: c :: d :: r =>
        let v := (a.toNat - 0xF0) * 262144 + (b.toNat - 0x80) * 4096 + (c.toNat - 0x80) * 64 +
          (d.toNat - 0x80)
        if isCont b ∧ isCont c ∧ isCont d ∧ 0x10000 ≤ v ∧ v.isValidChar then
          some (Char.ofNat v, r)
        else none
      | _ => none

/-- Decoding with fuel; a character takes at least one byte, so the length is enough. -/
def decodeFuel : Nat → List UInt8 → Option (List Char)
  | _, [] => some []
  | 0, _ :: _ => none
  | n + 1, a :: r =>
    match next (a :: r) with
    | some (c, r') => (decodeFuel n r').map (c :: ·)
    | none => none

def decode? (bs : List UInt8) : Option (List Char) := decodeFuel bs.length bs

theorem next_encodeChar (c : Char) (r : List UInt8) :
    next (String.utf8EncodeChar c ++ r) = some (c, r) := by
  have hv : c.val.toNat.isValidChar := c.valid
  have hc : Char.ofNat c.val.toNat = c := Char.ofNat_toNat c
  have hr : c.val.toNat < 0xD800 ∨ 0xDFFF < c.val.toNat ∧ c.val.toNat < 0x110000 := hv
  unfold String.utf8EncodeChar
  generalize c.val.toNat = v at hv hc hr ⊢
  by_cases h1 : v ≤ 0x7f
  · rw [if_pos h1]
    simp only [List.cons_append, List.nil_append, next, UInt8.toNat_ofNat', Nat.reducePow]
    rw [if_pos (by omega), Nat.mod_eq_of_lt (by omega), hc]
  by_cases h2 : v ≤ 0x7ff
  · rw [if_neg h1, if_pos h2]
    simp only [List.cons_append, List.nil_append, next, UInt8.toNat_ofNat', Nat.reducePow, isCont,
      decide_eq_true_eq]
    have e : ((v / 64 % 32 + 192) % 256 - 192) * 64 + ((v % 64 + 128) % 256 - 128) = v := by omega
    rw [e, if_neg (by omega), if_neg (by omega), if_pos (by omega), if_pos ⟨by omega, by omega⟩, hc]
  by_cases h3 : v ≤ 0xffff
  · rw [if_neg h1, if_neg h2, if_pos h3]
    simp only [List.cons_append, List.nil_append, next, UInt8.toNat_ofNat', Nat.reducePow, isCont,
      decide_eq_true_eq]
    have e : ((v / 4096 % 16 + 224) % 256 - 224) * 4096 +
        ((v / 64 % 64 + 128) % 256 - 128) * 64 + ((v % 64 + 128) % 256 - 128) = v := by omega
    rw [e, if_neg (by omega), if_neg (by omega), if_neg (by omega), if_pos (by omega),
      if_pos ⟨by omega, by omega, by omega, hv⟩, hc]
  · rw [if_neg h1, if_neg h2, if_neg h3]
    simp only [List.cons_append, List.nil_append, next, UInt8.toNat_ofNat', Nat.reducePow, isCont,
      decide_eq_true_eq]
    have e : ((v / 262144 % 8 + 240) % 256 - 240) * 262144 +
        ((v / 4096 % 64 + 128) % 256 - 128) * 4096 +
        ((v / 64 % 64 + 128) % 256 - 128) * 64 + ((v % 64 + 128) % 256 - 128) = v := by omega
    rw [e, if_neg (by omega), if_neg (by omega), if_neg (by omega), if_neg (by omega),
      if_pos ⟨by omega, by omega, by omega, by omega, hv⟩, hc]

/-- In front of `r`, a character is at least one byte, and it is read off. -/
theorem next_step (c : Char) (r : List UInt8) :
    ∃ a t, String.utf8EncodeChar c ++ r = a :: t ∧ next (a :: t) = some (c, r) ∧
      r.length ≤ t.length := by
  have hnext := next_encodeChar c r
  obtain ⟨a, as, ha⟩ := List.exists_cons_of_ne_nil (encodeChar_ne_nil c)
  rw [ha, List.cons_append] at hnext ⊢
  refine ⟨a, as ++ r, rfl, hnext, ?_⟩
  rw [List.length_append]
  exact Nat.le_add_left _ _

theorem decodeFuel_encode (cs : List Char) (n : Nat) (hn : (encode cs).length ≤ n) :
    decodeFuel n (encode cs) = some cs := by
  induction cs generalizing n with
  | nil => cases n <;> rfl
  | cons c cs ih =>
    obtain ⟨a, t, hat, hnext, hlen⟩ := next_step c (encode cs)
    rw [encode_cons, hat, List.length_cons] at hn
    obtain ⟨n, rfl⟩ : ∃ k, n = k + 1 := ⟨n - 1, by omega⟩
    rw [encode_cons, hat, decodeFuel, hnext]
    simp only
    rw [ih n (by omega)]
    rfl

theorem decode?_encode (cs : List Char) : decode? (encode cs) = some cs :=
  decodeFuel_encode cs _ (Nat.le_refl _)

theorem encode_injective {cs ds : List Char} (h : encode cs = encode ds) : cs = ds := by
  have hcs := decode?_encode cs
  rw [h, decode?_encode, Option.some.injEq] at hcs
  exact hcs.symm

theorem bytes_injective {s t : String} (h : bytes s = bytes t) : s = t :=
  String.toList_inj.1 (encode_injective h)

/-- An ASCII text is cut at any byte. -/
theorem encode_take_ascii : ∀ {cs : List Char} (n : Nat), (∀ c ∈ cs, c.toNat < 0x80) →
    (encode cs).take n = encode (cs.take n)
  | [], _, _ => by simp
  | _ :: _, 0, _ => rfl
  | c :: cs, n + 1, h => by
    have hc := h c List.mem_cons_self
    rw [encode_cons, encodeChar_ascii hc, List.take_succ_cons, encode_cons, encodeChar_ascii hc,
      List.singleton_append, List.take_succ_cons,
      encode_take_ascii n fun d hd => h d (List.mem_cons_of_mem _ hd)]
    rfl

theorem encode_length_ascii {cs : List Char} (h : ∀ c ∈ cs, c.toNat < 0x80) :
    (encode cs).length = cs.length := by
  induction cs with
  | nil => rfl
  | cons c cs ih =>
    rw [encode_cons, encodeChar_ascii (h c List.mem_cons_self), List.singleton_append,
      List.length_cons, ih fun d hd => h d (List.mem_cons_of_mem _ hd), List.length_cons]

theorem length_le_encode (cs : List Char) : cs.length ≤ (encode cs).length := by
  induction cs with
  | nil => exact Nat.le_refl _
  | cons c cs ih =>
    have hpos := c.utf8Size_pos
    rw [encode_cons, List.length_append, String.length_utf8EncodeChar, List.length_cons]
    omega

/-- A text that has as many bytes as characters is ASCII. -/
theorem ascii_of_encode_length {cs : List Char} (h : (encode cs).length = cs.length) :
    ∀ c ∈ cs, c.toNat < 0x80 := by
  induction cs with
  | nil => simp
  | cons c cs ih =>
    have hpos := c.utf8Size_pos
    have hle := length_le_encode cs
    rw [encode_cons, List.length_append, String.length_utf8EncodeChar, List.length_cons] at h
    have hc : c.utf8Size = 1 := by omega
    have hval : c.val.toNat ≤ 127 := UInt32.le_iff_toNat_le.1 (Char.utf8Size_eq_one_iff.1 hc)
    exact List.forall_mem_cons.2 ⟨Nat.lt_succ_of_le hval, ih (by omega)⟩

theorem toNat_ofNat {v : Nat} (h : v.isValidChar) : (Char.ofNat v).val.toNat = v := by
  unfold Char.ofNat
  rw [dif_pos h]
  rfl

theorem byte_eq {b : UInt8} {n : Nat} (h : b.toNat = n % 256) : UInt8.ofNat n = b := by
  rw [← UInt8.toNat_inj, UInt8.toNat_ofNat']
  exact h.symm

theorem next_sound {bs r : List UInt8} {c : Char} (h : next bs = some (c, r)) :
    bs = String.utf8EncodeChar c ++ r := by
  have hlt : ∀ b : UInt8, b.toNat < 256 := fun b => b.toNat_lt
  match bs with
  | [] => simp [next] at h
  | a :: t =>
    have ha := hlt a
    simp only [next] at h
    split at h
    · rename_i h1
      simp only [Option.some.injEq, Prod.mk.injEq] at h
      obtain ⟨rfl, rfl⟩ := h
      have hn := toNat_ofNat (v := a.toNat) (Or.inl (by omega))
      unfold String.utf8EncodeChar
      rw [hn, if_pos (by omega)]
      simp
    · split at h
      · cases h
      · split at h
        · match t with
          | [] => simp at h
          | b :: t =>
            have hb := hlt b
            simp only [isCont, decide_eq_true_eq] at h
            obtain ⟨h4, heq⟩ := Option.ite_none_right_eq_some.1 h
            obtain ⟨rfl, rfl⟩ := Prod.mk.inj (Option.some.inj heq)
            have hn := toNat_ofNat (v := (a.toNat - 192) * 64 + (b.toNat - 128))
              (Or.inl (by omega))
            unfold String.utf8EncodeChar
            rw [hn, if_neg (by omega), if_pos (by omega), byte_eq (b := a) (by omega),
              byte_eq (b := b) (by omega)]
            rfl
        · split at h
          · match t with
            | [] => simp at h
            | [b] => simp at h
            | b :: d :: t =>
              have hb := hlt b
              have hd := hlt d
              simp only [isCont, decide_eq_true_eq] at h
              obtain ⟨h4, heq⟩ := Option.ite_none_right_eq_some.1 h
              obtain ⟨rfl, rfl⟩ := Prod.mk.inj (Option.some.inj heq)
              obtain ⟨h5, h6, h7, h8⟩ := h4
              have hn := toNat_ofNat h8
              unfold String.utf8EncodeChar
              rw [hn, if_neg (by omega), if_neg (by omega), if_pos (by omega),
                byte_eq (b := a) (by omega), byte_eq (b := b) (by omega),
                byte_eq (b := d) (by omega)]
              rfl
          · match t with
            | [] => simp at h
            | [b] => simp at h
            | [b, d] => simp at h
            | b :: d :: e :: t =>
              have hb := hlt b
              have hd := hlt d
              have he := hlt e
              simp only [isCont, decide_eq_true_eq] at h
              obtain ⟨h4, heq⟩ := Option.ite_none_right_eq_some.1 h
              obtain ⟨rfl, rfl⟩ := Prod.mk.inj (Option.some.inj heq)
              obtain ⟨h5, h6, h7, h8, h9⟩ := h4
              have hn := toNat_ofNat h9
              have hmax : (a.toNat - 240) * 262144 + (b.toNat - 128) * 4096 +
                  (d.toNat - 128) * 64 + (e.toNat - 128) < 0x110000 := by
                rcases h9 with h9 | h9
                · omega
                · exact h9.2
              unfold String.utf8EncodeChar
              rw [hn, if_neg (by omega), if_neg (by omega), if_neg (by omega),
                byte_eq (b := a) (by omega), byte_eq (b := b) (by omega),
                byte_eq (b := d) (by omega), byte_eq (b := e) (by omega)]
              rfl

theorem decodeFuel_sound : ∀ (n : Nat) (bs : List UInt8) (cs : List Char),
    decodeFuel n bs = some cs → bs = encode cs
  | n, [], cs, h => by
    cases n <;> simp only [decodeFuel, Option.some.injEq] at h <;> subst h <;> rfl
  | 0, _ :: _, _, h => by simp [decodeFuel] at h
  | n + 1, a :: r, cs, h => by
    simp only [decodeFuel] at h
    split at h
    · rename_i c r' hn
      obtain ⟨ds, hds, rfl⟩ := Option.map_eq_some_iff.1 h
      rw [next_sound hn, encode_cons, decodeFuel_sound n r' ds hds]
    · cases h

theorem decode?_sound {bs : List UInt8} {cs : List Char} (h : decode? bs = some cs) :
    bs = encode cs :=
  decodeFuel_sound _ bs cs h

/-! ## Slices at character boundaries -/

/-- An index between two characters, or at either end. -/
def isCharBoundary (s : List UInt8) (i : Nat) : Bool :=
  i == 0 || match s[i]? with
    | some b => !isCont b
    | none => i == s.length

/-- `s[i..]`, refused inside a character. -/
def sliceFrom? (s : List UInt8) (i : Nat) : Option (List UInt8) :=
  if isCharBoundary s i then some (s.drop i) else none

/-- `s[..i]`, refused inside a character. -/
def sliceTo? (s : List UInt8) (i : Nat) : Option (List UInt8) :=
  if isCharBoundary s i then some (s.take i) else none

theorem isCont_ascii {b : UInt8} (h : b.toNat < 0x80) : isCont b = false := by
  simp only [isCont, decide_eq_false_iff_not]
  omega

/-- An ASCII byte of a text is a character of its own. -/
theorem encode_split_ascii {a : UInt8} (ha : a.toNat < 0x80) :
    ∀ (cs : List Char) (pre post : List UInt8), encode cs = pre ++ a :: post →
      ∃ ds es, pre = encode ds ∧ post = encode es
  | [], pre, post, h => by simp at h
  | c :: cs, pre, post, h => by
    rw [encode_cons] at h
    rcases List.append_eq_append_iff.1 h with ⟨pre', hpre, hcs⟩ | ⟨post', hc, hpost⟩
    · obtain ⟨ds, es, hds, hes⟩ := encode_split_ascii ha cs pre' post hcs
      exact ⟨c :: ds, es, by rw [hpre, hds, encode_cons], hes⟩
    · cases post' with
      | nil =>
        obtain ⟨_, es, -, hes⟩ := encode_split_ascii ha cs [] post hpost.symm
        refine ⟨[c], es, ?_, hes⟩
        rw [encode_cons, encode_nil, List.append_nil, hc, List.append_nil]
      | cons b post' =>
        obtain ⟨rfl, hrest⟩ := List.cons.inj hpost
        -- `a` is a byte of `c`, so `c` is ASCII and `a` its only byte
        by_cases hlt : c.toNat < 0x80
        · rw [encodeChar_ascii hlt] at hc
          have hone : pre = [] ∧ post' = [] := by
            cases pre with
            | nil => exact ⟨rfl, (List.cons.inj hc).2.symm⟩
            | cons x pre => simp at hc
          refine ⟨[], cs, hone.1, ?_⟩
          rw [hrest, hone.2]
          rfl
        · obtain ⟨_, _, -, -, hall⟩ := encodeChar_nonascii (Nat.le_of_not_lt hlt)
          have hhigh := hall a (by rw [hc]; simp)
          omega

theorem isCharBoundary_append_encode (pre : List UInt8) (cs : List Char) :
    isCharBoundary (pre ++ encode cs) pre.length = true := by
  unfold isCharBoundary
  cases cs with
  | nil => simp
  | cons c cs =>
    by_cases hlt : c.toNat < 0x80
    · rw [encode_cons, encodeChar_ascii hlt]
      have : isCont (UInt8.ofNat c.toNat) = false :=
        isCont_ascii (by rw [UInt8.toNat_ofNat', Nat.mod_eq_of_lt (by omega)]; exact hlt)
      simp [this]
    · obtain ⟨a, as, h, ha, -⟩ := encodeChar_nonascii (Nat.le_of_not_lt hlt)
      have : isCont a = false := by
        simp only [isCont, decide_eq_false_iff_not]
        omega
      simp [h, this]

/-- Slicing a text right after an ASCII byte succeeds and leaves a text. -/
theorem sliceFrom?_after_ascii {cs : List Char} {pre post : List UInt8} {a : UInt8}
    (ha : a.toNat < 0x80) (h : encode cs = pre ++ a :: post) :
    sliceFrom? (encode cs) (pre.length + 1) = some post ∧ ∃ es, post = encode es := by
  obtain ⟨ds, es, -, hes⟩ := encode_split_ascii ha cs pre post h
  have hsplit : encode cs = (pre ++ [a]) ++ encode es := by rw [h, hes]; simp
  have hb := isCharBoundary_append_encode (pre ++ [a]) es
  rw [← hsplit, List.length_append, List.length_singleton] at hb
  refine ⟨?_, es, hes⟩
  unfold sliceFrom?
  rw [if_pos hb, hsplit, List.drop_left' (by simp), hes]

/-- Slicing a text right before an ASCII byte succeeds. -/
theorem sliceTo?_before_ascii {s pre post : List UInt8} {a : UInt8} (ha : a.toNat < 0x80)
    (h : s = pre ++ a :: post) : sliceTo? s pre.length = some pre := by
  unfold sliceTo? isCharBoundary
  rw [h]
  simp [isCont_ascii ha]

end SealedSky.Utf8
