import SealedSky.Lib.JsonText
import SealedSky.TrustedOs.Rpc

/-!
# The JSON-RPC envelopes between the Trusted OS and its applet

The applet's `RPC.Recv` and `RPC.Send` (`docker/trusted_os/rpc.go`) travel as Go's
`net/rpc/jsonrpc` writes and reads them: strings are escaped by `encoding/json`, with HTML escaping
on, and a message that is no complete JSON value calls nothing.

* `find_input` — a key text inside `Method` is never taken for the key.
* `method_field`, `input_field` — the two fields of an `RPC.Recv` response, for every call.
* `method_field_take`, `input_field_take` — the same, wherever the response is cut off.
* `unquote_literal` — a JSON string literal is read back, and `literal_goString` — one is written.
-/
namespace SealedSky.TrustedOs

open Utf8 Scan JsonText

/-! ## `encoding/json` strings -/

/-- An entry of `const hex = "0123456789abcdef"`. -/
def hexChar (n : Nat) : Char := "0123456789abcdef".toList.getD n '0'

/-- `appendString` of `encoding/json`, one character. -/
def goEscape (c : Char) : List Char :=
  if c = '"' then ['\\', '"']
  else if c = '\\' then ['\\', '\\']
  else if c = '\x08' then ['\\', 'b']
  else if c = '\x0c' then ['\\', 'f']
  else if c = '\n' then ['\\', 'n']
  else if c = '\r' then ['\\', 'r']
  else if c = '\t' then ['\\', 't']
  else if c.toNat < 0x20 ∨ c = '<' ∨ c = '>' ∨ c = '&' then
    ['\\', 'u', '0', '0', hexChar (c.toNat / 16), hexChar (c.toNat % 16)]
  else if c.toNat = 0x2028 ∨ c.toNat = 0x2029 then ['\\', 'u', '2', '0', '2', hexChar (c.toNat % 16)]
  else [c]

/-- The text `encoding/json` puts between the quotes. -/
def goString (s : String) : List Char := s.toList.flatMap goEscape

def goQuoted (s : String) : List Char := '"' :: (goString s ++ ['"'])

/-- A character that `encoding/json` does not write as itself. -/
def Escaped (c : Char) : Prop :=
  c = '"' ∨ c = '\\' ∨ c.toNat < 0x20 ∨ c = '<' ∨ c = '>' ∨ c = '&' ∨
    c.toNat = 0x2028 ∨ c.toNat = 0x2029

instance (c : Char) : Decidable (Escaped c) := inferInstanceAs (Decidable (_ ∨ _))

/-- No character of the string needs escaping. -/
def Plain (s : String) : Prop := ∀ c ∈ s.toList, ¬ Escaped c

instance (s : String) : Decidable (Plain s) :=
  inferInstanceAs (Decidable (∀ c ∈ s.toList, ¬ Escaped c))

theorem goEscape_plain {c : Char} (h : ¬ Escaped c) : goEscape c = [c] := by
  simp only [Escaped, not_or] at h
  obtain ⟨h1, h2, h3, h4, h5, h6, h7, h8⟩ := h
  have h9 : c ≠ '\x08' := by rintro rfl; exact h3 (by decide)
  have h10 : c ≠ '\x0c' := by rintro rfl; exact h3 (by decide)
  have h11 : c ≠ '\n' := by rintro rfl; exact h3 (by decide)
  have h12 : c ≠ '\r' := by rintro rfl; exact h3 (by decide)
  have h13 : c ≠ '\t' := by rintro rfl; exact h3 (by decide)
  unfold goEscape
  rw [if_neg h1, if_neg h2, if_neg h9, if_neg h10, if_neg h11, if_neg h12, if_neg h13,
    if_neg (by simp only [not_or]; exact ⟨h3, h4, h5, h6⟩), if_neg (by simp only [not_or]; exact ⟨h7, h8⟩)]

theorem flatMap_goEscape_plain : ∀ {cs : List Char}, (∀ c ∈ cs, ¬ Escaped c) →
    cs.flatMap goEscape = cs
  | [], _ => rfl
  | c :: cs, h => by
    rw [List.flatMap_cons, goEscape_plain (h c List.mem_cons_self),
      flatMap_goEscape_plain fun d hd => h d (List.mem_cons_of_mem _ hd)]
    rfl

theorem backslash_mem_goEscape {c : Char} (h : Escaped c) : '\\' ∈ goEscape c := by
  unfold goEscape
  repeat' split
  on_goal 10 =>
    -- the arm of the characters written as themselves
    rename_i h1 h2 _ _ _ _ _ h3 h4
    simp only [not_or] at h3 h4
    obtain ⟨h3, h5, h6, h7⟩ := h3
    rcases h with h | h | h | h | h | h | h | h
    · exact absurd h h1
    · exact absurd h h2
    · exact absurd h h3
    · exact absurd h h5
    · exact absurd h h6
    · exact absurd h h7
    · exact absurd h h4.1
    · exact absurd h h4.2
  all_goals exact List.mem_cons_self

/-- What is escaped shows a backslash. -/
theorem plain_of_backslash_notMem {s : String} (h : '\\' ∉ goString s) : Plain s := by
  intro c hc hesc
  exact h (List.mem_flatMap.2 ⟨c, hc, backslash_mem_goEscape hesc⟩)

theorem goString_plain {s : String} (h : Plain s) : goString s = s.toList :=
  flatMap_goEscape_plain h

/-! ## The `RPC.Recv` response -/

/-- The reply `net/rpc/jsonrpc` writes to `RPC.Recv`; `id` is the request's own. -/
def recvText (id : List Char) (call : AppletCall) : List Char :=
  "\x7b\"id\":".toList ++ id ++ ",\"result\":\x7b".toList ++
    ("\"Method\":".toList ++ goQuoted call.method ++ ",".toList ++
      "\"Input\":".toList ++ goQuoted call.input) ++ "\x7d,\"error\":null\x7d".toList

/-- The response to the request of `serve`, whose id is 1, as `json.Encoder` puts it on the wire. -/
def recvResponse (call : AppletCall) : List UInt8 := encode (recvText ['1'] call ++ ['\n'])

/-! ## The `RPC.Send` message -/

def hexVal (b : UInt8) : Option Nat :=
  if 48 ≤ b.toNat ∧ b.toNat ≤ 57 then some (b.toNat - 48)
  else if 97 ≤ b.toNat ∧ b.toNat ≤ 102 then some (b.toNat - 87)
  else if 65 ≤ b.toNat ∧ b.toNat ≤ 70 then some (b.toNat - 55)
  else none

/-- `getu4`, behind the `\u`. -/
def getu4 : List UInt8 → Option (Nat × List UInt8)
  | a :: b :: c :: d :: r =>
    match hexVal a, hexVal b, hexVal c, hexVal d with
    | some a, some b, some c, some d => some (((a * 16 + b) * 16 + c) * 16 + d, r)
    | _, _, _, _ => none
  | _ => none

/-- The character of a `\u` escape; two that form a surrogate pair are one character, and a
surrogate on its own is replaced. -/
def codePoint (v : Nat) (r : List UInt8) : Char × List UInt8 :=
  if 0xD800 ≤ v ∧ v < 0xE000 then
    match r with
    | 92 :: 117 :: r' =>
      match getu4 r' with
      | some (w, r'') =>
        if v < 0xDC00 ∧ 0xDC00 ≤ w ∧ w < 0xE000 then
          (Char.ofNat ((v - 0xD800) * 0x400 + (w - 0xDC00) + 0x10000), r'')
        else ('\uFFFD', r)
      | none => ('\uFFFD', r)
    | _ => ('\uFFFD', r)
  else (Char.ofNat v, r)

/-- The one-letter escapes of JSON. -/
def unescape (b : UInt8) : Option Char :=
  if b = 34 then some '"'
  else if b = 92 then some '\\'
  else if b = 47 then some '/'
  else if b = 98 then some '\x08'
  else if b = 102 then some '\x0c'
  else if b = 110 then some '\n'
  else if b = 114 then some '\r'
  else if b = 116 then some '\t'
  else none

def push (c : Char) (s : Option (List Char × List UInt8)) : Option (List Char × List UInt8) :=
  s.map fun p => (c :: p.1, p.2)

/-- `unquote` of `encoding/json` behind the opening quote: the characters up to the closing quote,
and the bytes behind it. The fuel bounds the number of characters. -/
def unquote : Nat → List UInt8 → Option (List Char × List UInt8)
  | 0, _ => none
  | _ + 1, [] => none
  | n + 1, b :: r =>
    if b = 34 then some ([], r)
    else if b = 92 then
      match r with
      | [] => none
      | d :: r =>
        if d = 117 then
          match getu4 r with
          | some (v, r) => push (codePoint v r).1 (unquote n (codePoint v r).2)
          | none => none
        else
          match unescape d with
          | some c => push c (unquote n r)
          | none => none
    else if b.toNat < 0x20 then none
    else
      match next (b :: r) with
      | some (c, r) => push c (unquote n r)
      | none => push '\uFFFD' (unquote n r)

/-- The `Output` that `RPC.Send` is called with, for the messages the applet puts together. What is
no complete JSON value calls nothing. -/
def decodeSend (msg : List UInt8) : Option String :=
  let head := bytes "\x7b\"method\":\"RPC.Send\",\"params\":[\x7b\"Output\":\""
  if head.isPrefixOf msg then
    match unquote msg.length (msg.drop head.length) with
    | some (cs, rest) => if rest = bytes "\x7d],\"id\":2\x7d" then some (String.ofList cs) else none
    | none => none
  else none

/-! ## Reading and writing literals -/

theorem hexVal_hexDigit {b : UInt8} {n : Nat} (h : HexDigit b n) : hexVal b = some n := by
  unfold hexVal
  rcases h with ⟨hn, hb⟩ | ⟨hlo, hhi, hb | hb⟩
  · rw [if_pos (by omega), hb, Nat.add_sub_cancel_left]
  · rw [if_neg (by omega), if_pos (by omega), hb, Nat.add_sub_cancel_left]
  · rw [if_neg (by omega), if_neg (by omega), if_pos (by omega), hb, Nat.add_sub_cancel_left]

theorem getu4_hex4 {ds : List UInt8} {v : Nat} (h : Hex4 ds v) (r : List UInt8) :
    getu4 (ds ++ r) = some (v, r) := by
  cases h with
  | digits ha hb hc hd =>
    simp only [List.cons_append, List.nil_append, getu4, hexVal_hexDigit ha, hexVal_hexDigit hb,
      hexVal_hexDigit hc, hexVal_hexDigit hd]

theorem unescape_of_mem {b : UInt8} {c : Char} (h : (b, c) ∈ escapes) :
    b ≠ 117 ∧ unescape b = some c := by
  simp only [escapes, List.mem_cons, List.not_mem_nil, or_false, Prod.mk.injEq] at h
  rcases h with ⟨rfl, rfl⟩ | ⟨rfl, rfl⟩ | ⟨rfl, rfl⟩ | ⟨rfl, rfl⟩ | ⟨rfl, rfl⟩ | ⟨rfl, rfl⟩ |
    ⟨rfl, rfl⟩ | ⟨rfl, rfl⟩
  all_goals decide

/-- A character that is written as itself starts with none of the bytes that mean something else. -/
theorem encodeChar_head {c : Char} (hc : 0x20 ≤ c.toNat) (hq : c ≠ '"') (he : c ≠ '\\') :
    ∃ a as, String.utf8EncodeChar c = a :: as ∧ a ≠ 34 ∧ a ≠ 92 ∧ 0x20 ≤ a.toNat := by
  by_cases hlt : c.toNat < 0x80
  · have hval : (UInt8.ofNat c.toNat).toNat = c.toNat := by
      rw [UInt8.toNat_ofNat', Nat.mod_eq_of_lt (by omega)]
    refine ⟨_, [], encodeChar_ascii hlt, fun h => hq ?_, fun h => he ?_, hval.symm ▸ hc⟩
    · exact Char.toNat_inj.1 (by rw [← hval, h]; rfl)
    · exact Char.toNat_inj.1 (by rw [← hval, h]; rfl)
  · obtain ⟨a, as, h, ha, -⟩ := encodeChar_nonascii (Nat.le_of_not_lt hlt)
    refine ⟨a, as, h, ?_, ?_, by omega⟩
    · rintro rfl
      exact absurd ha (by decide)
    · rintro rfl
      exact absurd ha (by decide)

/-- A character of a literal is read as what it stands for. -/
theorem unquote_item {bs : List UInt8} {c : Char} (h : Item bs c) (n : Nat) (r : List UInt8) :
    unquote (n + 1) (bs ++ r) = push c (unquote n r) := by
  cases h with
  | plain hc hq he =>
    obtain ⟨a, as, ha, hquote, hback, hctl⟩ := encodeChar_head hc hq he
    have hnext := next_encodeChar c r
    rw [ha, List.cons_append] at hnext ⊢
    rw [unquote.eq_def]
    simp only
    rw [if_neg hquote, if_neg hback, if_neg (by omega), hnext]
  | escape h =>
    obtain ⟨hu, hc⟩ := unescape_of_mem h
    simp [unquote, hu, hc]
  | @unit ds v h hv =>
    have hcp : codePoint v r = (Char.ofNat v, r) := by
      unfold codePoint
      rw [if_neg]
      rcases hv with hv | hv
      · omega
      · omega
    simp [unquote, getu4_hex4 h, hcp]
  | @pair ds es v w h h' hv hw =>
    have hcp : codePoint v (92 :: 117 :: (es ++ r)) =
        (Char.ofNat ((v - 0xD800) * 0x400 + (w - 0xDC00) + 0x10000), r) := by
      simp only [codePoint, getu4_hex4 h']
      rw [if_pos (by omega), if_pos (by omega)]
    simp [unquote, getu4_hex4 h, hcp]

/-- **A literal is read back.** -/
theorem unquote_literal {bs : List UInt8} {cs : List Char} (h : Literal bs cs) {n : Nat}
    (hn : cs.length < n) (rest : List UInt8) :
    unquote n (bs ++ 34 :: rest) = some (cs, rest) := by
  induction h generalizing n with
  | nil =>
    obtain ⟨n, rfl⟩ : ∃ m, n = m + 1 := ⟨n - 1, by omega⟩
    rfl
  | cons hc _ ih =>
    rw [List.length_cons] at hn
    obtain ⟨n, rfl⟩ : ∃ m, n = m + 1 := ⟨n - 1, by omega⟩
    rw [List.append_assoc, unquote_item hc, ih (by omega)]
    rfl

/-- A literal stands for one text. -/
theorem literal_unique {bs : List UInt8} {cs ds : List Char} (h : Literal bs cs)
    (h' : Literal bs ds) : cs = ds := by
  have hread := unquote_literal h (n := cs.length + ds.length + 1) (by omega) []
  rw [unquote_literal h' (by omega), Option.some.injEq, Prod.mk.injEq] at hread
  exact hread.1.symm

/-! ## Quoted text -/

theorem encode_flatMap {α : Type} (f : α → List Char) (l : List α) :
    encode (l.flatMap f) = l.flatMap fun a => encode (f a) := by
  simp [encode, List.flatMap_assoc]

theorem hexVal_ne {b : UInt8} {v : Nat} (h : hexVal b = some v) : b ≠ 34 ∧ b ≠ 92 := by
  constructor
  · rintro rfl
    cases h
  · rintro rfl
    cases h

theorem getu4_split {bs r : List UInt8} {v : Nat} (h : getu4 bs = some (v, r)) :
    ∃ pre, bs = pre ++ r ∧ Body 34 92 pre := by
  unfold getu4 at h
  split at h
  · rename_i a b c d r'
    split at h
    · rename_i ha hb hc hd
      cases h
      have ha := hexVal_ne ha
      have hb := hexVal_ne hb
      have hc := hexVal_ne hc
      have hd := hexVal_ne hd
      exact ⟨[a, b, c, d], rfl,
        .plain ha.1 ha.2 (.plain hb.1 hb.2 (.plain hc.1 hc.2 (.plain hd.1 hd.2 .nil)))⟩
    · cases h
  · cases h

theorem codePoint_split (v : Nat) (bs : List UInt8) :
    ∃ pre, bs = pre ++ (codePoint v bs).2 ∧ Body 34 92 pre := by
  unfold codePoint
  split
  · split
    · rename_i r
      split
      · rename_i w r' hget
        split
        · obtain ⟨pre, rfl, hpre⟩ := getu4_split hget
          exact ⟨92 :: 117 :: pre, rfl, hpre.esc 117⟩
        · exact ⟨[], rfl, .nil⟩
      · exact ⟨[], rfl, .nil⟩
    · exact ⟨[], rfl, .nil⟩
  · exact ⟨[], rfl, .nil⟩

/-- What `unquote` reads ends at the quote that `closing` finds. -/
theorem unquote_closing : ∀ {n : Nat} {bs : List UInt8} {cs : List Char} {rest : List UInt8},
    unquote n bs = some (cs, rest) → ∃ body, bs = body ++ 34 :: rest ∧ Body 34 92 body
  | 0, _, _, _, h => by cases h
  | n + 1, [], _, _, h => by cases h
  | n + 1, b :: r, cs, rest, h => by
    -- one character: its bytes are quoted text, and the rest is read by recursion
    have hrec : ∀ (pre : List UInt8) {r' : List UInt8} {c : Char}, b :: r = pre ++ r' → Body 34 92 pre →
        push c (unquote n r') = some (cs, rest) →
        ∃ body, b :: r = body ++ 34 :: rest ∧ Body 34 92 body := by
      intro pre r' c hsplit hpre hpush
      obtain ⟨⟨cs', rest'⟩, hu, hp⟩ := Option.map_eq_some_iff.1 hpush
      cases hp
      obtain ⟨body, rfl, hbody⟩ := unquote_closing hu
      exact ⟨pre ++ body, by rw [hsplit, List.append_assoc], hpre.append hbody⟩
    rw [unquote.eq_def] at h
    simp only at h
    split at h
    · rename_i hb
      cases h
      exact ⟨[], by rw [hb]; rfl, .nil⟩
    rename_i hq
    split at h
    · rename_i hb
      subst hb
      split at h
      · cases h
      · rename_i d r'
        split at h
        · split at h
          · rename_i v r'' hget
            obtain ⟨pre, rfl, hpre⟩ := getu4_split hget
            obtain ⟨pre', hcp, hpre'⟩ := codePoint_split v r''
            refine hrec (92 :: d :: (pre ++ pre')) ?_ ((hpre.append hpre').esc d) h
            rw [List.cons_append, List.cons_append, List.append_assoc, ← hcp]
          · cases h
        · split at h
          · exact hrec [92, d] rfl (.esc d .nil) h
          · cases h
    rename_i he
    split at h
    · cases h
    · split at h
      · rename_i c r' hn
        have hsplit := next_sound hn
        refine hrec _ hsplit (body_encodeChar ?_ ?_) h
        · rintro rfl
          exact hq (List.cons.inj hsplit).1
        · rintro rfl
          exact he (List.cons.inj hsplit).1
      · exact hrec [b] rfl (.plain hq he .nil) h

theorem hexDigit_hexChar {n : Nat} (h : n < 16) :
    ∃ b, String.utf8EncodeChar (hexChar n) = [b] ∧ HexDigit b n := by
  have hall : ∀ n < 16, String.utf8EncodeChar (hexChar n) = [UInt8.ofNat (hexChar n).toNat] ∧
      HexDigit (UInt8.ofNat (hexChar n).toNat) n := by decide
  exact ⟨_, hall n h⟩

theorem item_unicode {i j k l : Nat} (hi : i < 16) (hj : j < 16) (hk : k < 16) (hl : l < 16) {c : Char}
    (hc : c.toNat = ((i * 16 + j) * 16 + k) * 16 + l) :
    Item (encode ['\\', 'u', hexChar i, hexChar j, hexChar k, hexChar l]) c := by
  obtain ⟨a, ha, hda⟩ := hexDigit_hexChar hi
  obtain ⟨b, hb, hdb⟩ := hexDigit_hexChar hj
  obtain ⟨d, hd, hdd⟩ := hexDigit_hexChar hk
  obtain ⟨e, he, hde⟩ := hexDigit_hexChar hl
  have hbytes : encode ['\\', 'u', hexChar i, hexChar j, hexChar k, hexChar l] =
      92 :: 117 :: [a, b, d, e] := by
    have hback : String.utf8EncodeChar '\\' = [92] := by decide
    have hu : String.utf8EncodeChar 'u' = [117] := by decide
    simp only [encode_cons, encode_nil, hback, hu, ha, hb, hd, he, List.cons_append, List.nil_append]
  have hitem := Item.unit (.digits hda hdb hdd hde) (hc ▸ c.valid)
  rw [← hc, Char.ofNat_toNat] at hitem
  rw [hbytes]
  exact hitem

theorem item_letter {d c : Char} {b : UInt8} (hd : encode ['\\', d] = [92, b])
    (h : (b, c) ∈ escapes) : Item (encode ['\\', d]) c := hd ▸ .escape h

/-- `encoding/json` writes a character so that it stands for itself. -/
theorem item_goEscape (c : Char) : Item (encode (goEscape c)) c := by
  unfold goEscape
  split
  · rename_i h
    subst h
    exact item_letter (b := 34) (by decide) (by decide)
  rename_i hq
  split
  · rename_i h
    subst h
    exact item_letter (b := 92) (by decide) (by decide)
  rename_i he
  split
  · rename_i h
    subst h
    exact item_letter (b := 98) (by decide) (by decide)
  split
  · rename_i h
    subst h
    exact item_letter (b := 102) (by decide) (by decide)
  split
  · rename_i h
    subst h
    exact item_letter (b := 110) (by decide) (by decide)
  split
  · rename_i h
    subst h
    exact item_letter (b := 114) (by decide) (by decide)
  split
  · rename_i h
    subst h
    exact item_letter (b := 116) (by decide) (by decide)
  split
  · rename_i h
    have hc : c.toNat < 0x80 := by
      rcases h with h | rfl | rfl | rfl
      · omega
      · decide
      · decide
      · decide
    have hzero : '0' = hexChar 0 := by decide
    rw [hzero]
    exact item_unicode (by omega) (by omega) (by omega) (by omega) (by omega)
  rename_i hctl
  split
  · have hzero : '0' = hexChar 0 := by decide
    have htwo : '2' = hexChar 2 := by decide
    rw [hzero, htwo]
    exact item_unicode (by omega) (by omega) (by omega) (by omega) (by omega)
  · rw [encode_cons, encode_nil, List.append_nil]
    exact .plain (by omega) hq he

/-- What `encoding/json` writes is a literal that stands for the string. -/
theorem literal_goString (s : String) : Literal (encode (goString s)) s.toList := by
  unfold goString
  rw [encode_flatMap]
  have h := Literal.flatMap (f := fun c => encode (goEscape c)) (g := id) (l := s.toList)
    fun c _ => item_goEscape c
  rwa [List.map_id] at h

theorem body_goString (s : String) : Body 34 92 (encode (goString s)) := (literal_goString s).body

/-! ## The fields of the response -/

/-- The response up to the `Method` key. -/
def recvHead (id : List Char) : List UInt8 := bytes "\x7b\"id\":" ++ encode id ++ bytes ",\"result\":\x7b"

/-- The response up to the `Input` key. -/
def recvMid (id : List Char) (call : AppletCall) : List UInt8 :=
  recvHead id ++ (bytes "\"Method\":" ++
    34 :: (encode (goString call.method) ++ 34 :: bytes ","))

/-- The response behind the closing quote of `Input`. -/
def recvTail (tail : List Char) : List UInt8 := bytes "\x7d,\"error\":null\x7d" ++ encode tail

/-- The bytes of a response with `m` and `i` between the quotes. -/
theorem encode_envelope (id m i tail : List Char) :
    encode ("\x7b\"id\":".toList ++ id ++ ",\"result\":\x7b".toList ++
        ("\"Method\":".toList ++ '"' :: (m ++ ['"']) ++ ",".toList ++
          "\"Input\":".toList ++ '"' :: (i ++ ['"'])) ++ "\x7d,\"error\":null\x7d".toList ++ tail) =
      recvHead id ++ (bytes "\"Method\":" ++ 34 :: (encode m ++ 34 :: (bytes "," ++
        (bytes "\"Input\":" ++ 34 :: (encode i ++ 34 :: recvTail tail))))) := by
  have hquoted : ∀ cs, encode ('"' :: (cs ++ ['"'])) = 34 :: (encode cs ++ [34]) := by
    intro cs
    rw [encode_cons, encode_append]
    rfl
  unfold recvHead recvTail
  rw [encode_append, encode_append, encode_append, encode_append, encode_append, encode_append,
    encode_append, encode_append, encode_append, hquoted, hquoted]
  rw [encode_toList, encode_toList, encode_toList, encode_toList, encode_toList, encode_toList]
  simp only [List.append_assoc, List.cons_append, List.nil_append]

theorem recv_method_split (id tail : List Char) (call : AppletCall) :
    encode (recvText id call ++ tail) = recvHead id ++ (bytes "\"Method\":" ++
      34 :: (encode (goString call.method) ++ 34 :: (bytes "," ++ (bytes "\"Input\":" ++
        34 :: (encode (goString call.input) ++ 34 :: recvTail tail))))) :=
  encode_envelope id (goString call.method) (goString call.input) tail

theorem recv_input_split (id tail : List Char) (call : AppletCall) :
    encode (recvText id call ++ tail) = recvMid id call ++ (bytes "\"Input\":" ++
      34 :: (encode (goString call.input) ++ 34 :: recvTail tail)) := by
  rw [recv_method_split, recvMid]
  simp

theorem quote_notMem_encode {cs : List Char} (h : '"' ∉ cs) : 34 ∉ encode cs := by
  intro hm
  obtain ⟨c, hc, hb⟩ := List.mem_flatMap.1 hm
  have hne : c ≠ '"' := ne_of_mem_of_not_mem hc h
  by_cases hlt : c.toNat < 0x80
  · rw [encodeChar_ascii hlt, List.mem_singleton] at hb
    refine hne (Char.toNat_inj.1 ?_)
    have := congrArg UInt8.toNat hb
    rw [UInt8.toNat_ofNat', Nat.mod_eq_of_lt (by omega)] at this
    exact this.symm
  · obtain ⟨_, _, -, -, hall⟩ := encodeChar_nonascii (Nat.le_of_not_lt hlt)
    exact absurd (hall 34 hb) (by decide)

/-- Neither key starts in front of the `Method` key. -/
theorem skips_recvHead {id : List Char} (hid : '"' ∉ id) {k : UInt8} (hk : k = 77 ∨ k = 73)
    (w ys : List UInt8) : Skips (34 :: k :: w) (recvHead id) ys := by
  unfold recvHead
  rw [List.append_assoc]
  refine skips_append ?_ (skips_append (skips_of_notMem (quote_notMem_encode hid)) ?_)
  · have hlit : bytes "\x7b\"id\":" = [123, 34, 105, 100, 34, 58] := by decide
    rcases hk with rfl | rfl <;> simp [hlit, Skips, List.cons_prefix_cons]
  · have hlit : bytes ",\"result\":\x7b" = [44, 34, 114, 101, 115, 117, 108, 116, 34, 58, 123] := by
      decide
    rcases hk with rfl | rfl <;> simp [hlit, Skips, List.cons_prefix_cons]

theorem find_method {id : List Char} (hid : '"' ∉ id) (rest : List UInt8) :
    find (bytes "\"Method\":") (recvHead id ++ (bytes "\"Method\":" ++ rest)) =
      some (recvHead id).length := by
  have hlit : bytes "\"Method\":" = 34 :: 77 :: [101, 116, 104, 111, 100, 34, 58] := by decide
  have hskip := skips_recvHead hid (Or.inl rfl) [101, 116, 104, 111, 100, 34, 58]
    (bytes "\"Method\":" ++ rest)
  rw [← hlit] at hskip
  rw [find_skips hskip, find_of_prefix (List.prefix_append _ _)]
  simp

/-- The `Input` key is found behind `Method`, whatever quoted text stands there. -/
theorem find_input_behind {id : List Char} (hid : '"' ∉ id) {m : List UInt8} (hm : Body 34 92 m)
    (rest : List UInt8) :
    find (bytes "\"Input\":") ((recvHead id ++ (bytes "\"Method\":" ++ 34 :: (m ++ 34 :: bytes ","))) ++
        (bytes "\"Input\":" ++ rest)) =
      some (recvHead id ++ (bytes "\"Method\":" ++ 34 :: (m ++ 34 :: bytes ","))).length := by
  have hlit : bytes "\"Input\":" = 34 :: 73 :: [110, 112, 117, 116, 34, 58] := by decide
  have hword : bytes "\"Input\":" = 34 :: (bytes "Input" ++ [34, 58]) := by decide
  have hmethod : bytes "\"Method\":" = [34, 77, 101, 116, 104, 111, 100, 34, 58] := by decide
  have hkey : KeyWord (34 : UInt8) 92 (bytes "Input") := ⟨by decide, by decide, by decide⟩
  have hskip : Skips (bytes "\"Input\":")
      (recvHead id ++ (bytes "\"Method\":" ++ 34 :: (m ++ 34 :: bytes ",")))
      (bytes "\"Input\":" ++ rest) := by
    refine skips_append ?_ (skips_append ?_ ?_)
    · rw [hlit]
      exact skips_recvHead hid (Or.inr rfl) _ _
    · rw [hlit, hmethod]
      simp [Skips, List.cons_prefix_cons]
    · have hcomma : bytes "," = [44] := by decide
      rw [← List.cons_append, hcomma]
      refine skips_append ?_ ?_
      · rw [hword]
        exact skips_quote_quoted hkey (by decide) hm (by decide)
      · rw [hlit]
        simp [Skips, List.cons_prefix_cons]
  rw [find_skips hskip, find_of_prefix (List.prefix_append _ _)]
  simp

theorem find_input {id : List Char} (hid : '"' ∉ id) (call : AppletCall) (rest : List UInt8) :
    find (bytes "\"Input\":") (recvMid id call ++ (bytes "\"Input\":" ++ rest)) =
      some (recvMid id call).length :=
  find_input_behind hid (body_goString call.method) rest

theorem method_field {id : List Char} (hid : '"' ∉ id) (tail : List Char) (call : AppletCall) :
    field 34 92 (bytes "\"Method\":") (encode (recvText id call ++ tail)) =
      encode (goString call.method) := by
  rw [recv_method_split]
  exact field_eq (by decide) (body_goString call.method) (find_method hid _)

theorem input_field {id : List Char} (hid : '"' ∉ id) (tail : List Char) (call : AppletCall) :
    field 34 92 (bytes "\"Input\":") (encode (recvText id call ++ tail)) =
      encode (goString call.input) := by
  rw [recv_input_split]
  exact field_eq (by decide) (body_goString call.input) (find_input hid call _)

/-- **`Method` in a response of which `n` bytes arrived.** -/
theorem method_field_take {id : List Char} (hid : '"' ∉ id) (tail : List Char) (call : AppletCall)
    (n : Nat) :
    field 34 92 (bytes "\"Method\":") ((encode (recvText id call ++ tail)).take n) =
      if n ≤ (recvHead id).length + 10 + (encode (goString call.method)).length then []
      else encode (goString call.method) := by
  have hlen : (bytes "\"Method\":").length = 9 := by decide
  rw [recv_method_split, field_take (by decide) (body_goString call.method) (find_method hid _), hlen]

/-- **`Input` in a response of which `n` bytes arrived.** -/
theorem input_field_take {id : List Char} (hid : '"' ∉ id) (tail : List Char) (call : AppletCall)
    (n : Nat) :
    field 34 92 (bytes "\"Input\":") ((encode (recvText id call ++ tail)).take n) =
      if n ≤ (recvMid id call).length + 9 + (encode (goString call.input)).length then []
      else encode (goString call.input) := by
  have hlen : (bytes "\"Input\":").length = 8 := by decide
  rw [recv_input_split, field_take (by decide) (body_goString call.input) (find_input hid call _),
    hlen]

end SealedSky.TrustedOs
