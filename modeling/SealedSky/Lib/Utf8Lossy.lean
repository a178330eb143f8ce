import SealedSky.Lib.Utf8

/-!
# Decoding bytes that may not be UTF-8

`decodeLossy` never fails: where no character starts, the longest start of one that can still be there
(one byte at least) is replaced by U+FFFD.

* `decodeLossy_encode` — the UTF-8 form of a text is decoded to the text.
* `decodeLossy_cut` — what is made of a text that was cut off, also inside a character.
-/
namespace SealedSky.Utf8

/-- May `b` follow the lead byte `a` of a longer form? -/
def mayFollow (a b : UInt8) : Bool :=
  if a = 0xE0 then decide (0xA0 ≤ b.toNat ∧ b.toNat < 0xC0)
  else if a = 0xED then decide (0x80 ≤ b.toNat ∧ b.toNat < 0xA0)
  else if a = 0xF0 then decide (0x90 ≤ b.toNat ∧ b.toNat < 0xC0)
  else if a = 0xF4 then decide (0x80 ≤ b.toNat ∧ b.toNat < 0x90)
  else isCont b

/-- How many bytes one U+FFFD stands for, where no character starts. -/
def subpart : List UInt8 → Nat
  | [] => 0
  | [_] => 1
  | a :: b :: r =>
    if a.toNat < 0xE0 ∨ 0xF4 < a.toNat ∨ !mayFollow a b then 1
    else
      match r with
      | [] => 2
      | c :: _ => if 0xF0 ≤ a.toNat ∧ isCont c then 3 else 2

def decodeLossyFuel : Nat → List UInt8 → List Char
  | 0, _ => []
  | _ + 1, [] => []
  | n + 1, a :: r =>
    match next (a :: r) with
    | some (c, r') => c :: decodeLossyFuel n r'
    | none => '\uFFFD' :: decodeLossyFuel n ((a :: r).drop (subpart (a :: r)))

/-- The `decode` of a decoder that replaces what is malformed. Every step takes a byte, so the length
is fuel enough. -/
def decodeLossy (bs : List UInt8) : List Char := decodeLossyFuel bs.length bs

/-- Behind the UTF-8 form of a text the decoder goes on with what is left of its fuel. -/
theorem decodeLossyFuel_append (cs : List Char) (bs : List UInt8) (n : Nat)
    (hn : (encode cs ++ bs).length ≤ n) :
    ∃ m, decodeLossyFuel n (encode cs ++ bs) = cs ++ decodeLossyFuel m bs := by
  induction cs generalizing n with
  | nil => exact ⟨n, rfl⟩
  | cons c cs ih =>
    obtain ⟨a, t, hat, hnext, hlen⟩ := next_step c (encode cs ++ bs)
    rw [encode_cons, List.append_assoc, hat, List.length_cons] at hn
    obtain ⟨m, rfl⟩ : ∃ m, n = m + 1 := ⟨n - 1, by omega⟩
    obtain ⟨k, hk⟩ := ih m (by omega)
    rw [encode_cons, List.append_assoc, hat]
    simp only [decodeLossyFuel, hnext]
    exact ⟨k, by rw [hk, List.cons_append]⟩

/-- **The UTF-8 form of a text is decoded to the text.** -/
theorem decodeLossy_encode (cs : List Char) : decodeLossy (encode cs) = cs := by
  obtain ⟨m, hm⟩ := decodeLossyFuel_append cs [] (encode cs).length (by simp)
  have hnil : decodeLossyFuel m [] = [] := by cases m <;> rfl
  rw [List.append_nil, hnil, List.append_nil] at hm
  exact hm

example : decodeLossy [0x61, 0xF0, 0x9F, 0x98, 0x62, 0xC0, 0x80] =
    ['a', '\uFFFD', 'b', '\uFFFD', '\uFFFD'] := by decide

/-! ## A text that was cut off -/

theorem encodeChar_tail {c : Char} {a : UInt8} {as : List UInt8}
    (h : String.utf8EncodeChar c = a :: as) : ∀ b ∈ as, isCont b = true := by
  have hbyte : ∀ v : Nat, isCont (UInt8.ofNat (v % 64 + 128)) = true := by
    intro v
    simp only [isCont, UInt8.toNat_ofNat', Nat.reducePow, decide_eq_true_eq]
    omega
  intro b hb
  unfold String.utf8EncodeChar at h
  simp only at h
  split_ifs at h with h1 h2 h3
  · cases h
    cases hb
  · cases h
    rw [List.mem_singleton.1 hb]
    exact hbyte _
  · cases h
    simp only [List.mem_cons, List.not_mem_nil, or_false] at hb
    rcases hb with rfl | rfl
    · exact hbyte _
    · exact hbyte _
  · cases h
    simp only [List.mem_cons, List.not_mem_nil, or_false] at hb
    rcases hb with rfl | rfl | rfl
    · exact hbyte _
    · exact hbyte _
    · exact hbyte _

theorem next_of_isCont {a : UInt8} (h : isCont a = true) (r : List UInt8) : next (a :: r) = none := by
  simp only [isCont, decide_eq_true_eq] at h
  rw [next.eq_def]
  simp only
  rw [if_neg (by omega), if_pos h.2]

theorem marks_of_isCont {bs : List UInt8} (h : ∀ b ∈ bs, isCont b = true) (n : Nat) :
    ∀ d ∈ decodeLossyFuel n bs, d = '\uFFFD' := by
  induction n generalizing bs with
  | zero =>
    intro d hd
    cases hd
  | succ n ih =>
    cases bs with
    | nil =>
      intro d hd
      cases hd
    | cons a r =>
      intro d hd
      simp only [decodeLossyFuel, next_of_isCont (h a List.mem_cons_self) r] at hd
      rcases List.mem_cons.1 hd with rfl | hd
      · rfl
      · exact ih (fun b hb => h b (List.mem_of_mem_drop hb)) d hd

theorem subpart_pos (a : UInt8) (r : List UInt8) : 0 < subpart (a :: r) := by
  unfold subpart
  split
  · cases ‹a :: r = []›
  · exact Nat.one_pos
  · split
    · exact Nat.one_pos
    · split
      · exact Nat.two_pos
      · split <;> omega

/-- A character that was cut off is decoded to marks. -/
theorem marks_of_cut {c : Char} {p q : List UInt8} (h : String.utf8EncodeChar c = p ++ q)
    (hq : q ≠ []) (n : Nat) : ∀ d ∈ decodeLossyFuel n p, d = '\uFFFD' := by
  cases n with
  | zero =>
    intro d hd
    cases hd
  | succ n =>
    cases p with
    | nil =>
      intro d hd
      cases hd
    | cons a r =>
      have hnone : next (a :: r) = none := by
        cases hnext : next (a :: r) with
        | none => rfl
        | some x =>
          -- the bytes would be a character, and then they are `c` and nothing is cut off
          obtain ⟨c', r'⟩ := x
          have hwhole := next_encodeChar c []
          rw [List.append_nil, h, next_sound hnext, List.append_assoc, next_encodeChar] at hwhole
          have hrest := (Prod.mk.inj (Option.some.inj hwhole)).2
          exact absurd (List.append_eq_nil_iff.1 hrest).2 hq
      have htail := encodeChar_tail (h.trans (List.cons_append ..))
      have hpos := subpart_pos a r
      obtain ⟨k, hk⟩ : ∃ k, subpart (a :: r) = k + 1 := ⟨subpart (a :: r) - 1, by omega⟩
      intro d hd
      simp only [decodeLossyFuel, hnone, hk, List.drop_succ_cons] at hd
      rcases List.mem_cons.1 hd with rfl | hd
      · rfl
      · refine marks_of_isCont (fun b hb => ?_) n d hd
        exact htail b (List.mem_append_left q (List.mem_of_mem_drop hb))

/-- Bytes in front of a text are whole characters and a start of the next one. -/
theorem encode_split : ∀ {cs : List Char} {p q : List UInt8}, encode cs = p ++ q → ∃ ds es part,
    cs = ds ++ es ∧ p = encode ds ++ part ∧
      (part = [] ∨ ∃ c es' rest, es = c :: es' ∧ String.utf8EncodeChar c = part ++ rest ∧ rest ≠ [])
  | [], p, q, h => by
    obtain ⟨rfl, -⟩ := List.append_eq_nil_iff.1 h.symm
    exact ⟨[], [], [], rfl, rfl, Or.inl rfl⟩
  | c :: cs, p, q, h => by
    rw [encode_cons] at h
    rcases List.append_eq_append_iff.1 h with ⟨p', hp, hcs⟩ | ⟨rest, hc, -⟩
    · obtain ⟨ds, es, part, rfl, rfl, hpart⟩ := encode_split hcs
      exact ⟨c :: ds, es, part, rfl, by rw [hp, encode_cons, List.append_assoc], hpart⟩
    · by_cases hrest : rest = []
      · rw [hrest, List.append_nil] at hc
        exact ⟨[c], cs, [], rfl, by simp [hc], Or.inl rfl⟩
      · exact ⟨[], c :: cs, p, rfl, rfl, Or.inr ⟨c, cs, rest, rfl, hc, hrest⟩⟩

/-- **A text that was cut off** is decoded to its first characters, and to marks of the one that was
broken. -/
theorem decodeLossy_cut {cs : List Char} {p q : List UInt8} (h : encode cs = p ++ q) :
    ∃ ds es marks, cs = ds ++ es ∧ decodeLossy p = ds ++ marks ∧ (∀ d ∈ marks, d = '\uFFFD') ∧
      (es = [] → q = []) := by
  obtain ⟨ds, es, part, rfl, rfl, hpart⟩ := encode_split h
  obtain ⟨m, hm⟩ := decodeLossyFuel_append ds part _ (Nat.le_refl _)
  refine ⟨ds, es, decodeLossyFuel m part, rfl, hm, ?_, ?_⟩
  · rcases hpart with rfl | ⟨c, es', rest, -, hc, hrest⟩
    · intro d hd
      cases m <;> cases hd
    · exact marks_of_cut hc hrest m
  · rintro rfl
    rcases hpart with rfl | ⟨c, es', rest, hes, -⟩
    · rw [List.append_nil, List.append_nil] at h
      exact List.self_eq_append_right.1 h
    · cases hes

end SealedSky.Utf8
