import SealedSky.TrustedApplet.Scanning
import SealedSky.TrustedOs.JsonRpc

/-!
# The text of a request, for every Go string

A Go string is any bytes. `encoding/json` reads it rune by rune and writes a byte that starts no rune
as `\ufffd`, so what it writes is always a literal, and the applet, which looks for its keys with a
plain search, finds each of them where it stands as a key.

* `literal_goText` — what is written for a string, and what it stands for.
* `envelope_fields` — the two texts that the applet cuts out of a response.
-/
namespace SealedSky.TrustedOs

open TrustedApplet Utf8 Scan JsonText

/-! ## `encoding/json` over bytes -/

/-- Reading runes with fuel; a rune takes at least one byte, so the length is enough. -/
def runesFuel : Nat → List UInt8 → List (Option Char)
  | _, [] => []
  | 0, _ :: _ => []
  | n + 1, b :: r =>
    match next (b :: r) with
    | some (c, r') => some c :: runesFuel n r'
    | none => none :: runesFuel n r

/-- The runes `utf8.DecodeRuneInString` reads off a string; a byte that starts none is `none`. -/
def runes (s : List UInt8) : List (Option Char) := runesFuel s.length s

/-- `appendString` of `encoding/json`, one rune. -/
def goEscapeRune : Option Char → List Char
  | some c => goEscape c
  | none => ['\\', 'u', 'f', 'f', 'f', 'd']

/-- The text `encoding/json` puts between the quotes for the bytes of a string. -/
def goText (s : List UInt8) : List Char := (runes s).flatMap goEscapeRune

def goLiteral (s : List UInt8) : List Char := '"' :: (goText s ++ ['"'])

theorem runesFuel_encode (cs : List Char) (n : Nat) (hn : (encode cs).length ≤ n) :
    runesFuel n (encode cs) = cs.map some := by
  induction cs generalizing n with
  | nil => cases n <;> rfl
  | cons c cs ih =>
    obtain ⟨a, t, hat, hnext, hlen⟩ := next_step c (encode cs)
    rw [encode_cons, hat, List.length_cons] at hn
    obtain ⟨n, rfl⟩ : ∃ k, n = k + 1 := ⟨n - 1, by omega⟩
    rw [encode_cons, hat, runesFuel, hnext]
    simp only
    rw [ih n (by omega)]
    rfl

/-- On UTF-8 the two accounts of `encoding/json` agree. -/
theorem goText_bytes (s : String) : goText (bytes s) = goString s := by
  have hrunes : runes (bytes s) = s.toList.map some := runesFuel_encode _ _ (Nat.le_refl _)
  unfold goText goString
  rw [hrunes, List.flatMap_map]
  rfl

theorem item_goEscapeRune (r : Option Char) : Item (encode (goEscapeRune r)) (r.getD '\uFFFD') := by
  cases r with
  | none =>
    have hf : 'f' = hexChar 15 := by decide
    have hd : 'd' = hexChar 13 := by decide
    rw [goEscapeRune, hf, hd]
    exact item_unicode (by decide) (by decide) (by decide) (by decide) (by decide)
  | some c => exact item_goEscape c

/-- **What is written for a string**: a literal of its runes. -/
theorem literal_goText (s : List UInt8) :
    Literal (encode (goText s)) ((runes s).map (·.getD '\uFFFD')) := by
  unfold goText
  rw [encode_flatMap]
  exact Literal.flatMap fun r _ => item_goEscapeRune r

/-! ## The response -/

/-- The reply `net/rpc/jsonrpc` writes to `RPC.Recv`, for any two strings. -/
def envelope (id : List Char) (method input : List UInt8) : List Char :=
  "\x7b\"id\":".toList ++ id ++ ",\"result\":\x7b".toList ++
    ("\"Method\":".toList ++ goLiteral method ++ ",".toList ++
      "\"Input\":".toList ++ goLiteral input) ++ "\x7d,\"error\":null\x7d".toList

theorem recvText_eq_envelope (id : List Char) (call : AppletCall) :
    recvText id call = envelope id (bytes call.method) (bytes call.input) := by
  unfold recvText envelope goLiteral goQuoted
  rw [goText_bytes, goText_bytes]

theorem envelope_split (id tail : List Char) (method input : List UInt8) :
    encode (envelope id method input ++ tail) = recvHead id ++ (bytes "\"Method\":" ++
      34 :: (encode (goText method) ++ 34 :: (bytes "," ++ (bytes "\"Input\":" ++
        34 :: (encode (goText input) ++ 34 :: recvTail tail))))) :=
  encode_envelope id (goText method) (goText input) tail

/-- **No content is taken for the envelope.** Whatever bytes `Method` and `Input` hold, the applet
cuts exactly the texts between their quotes out of the response. -/
theorem envelope_fields (id tail : List Char) (method input : List UInt8) (hid : '"' ∉ id) :
    extractJsonStringLoop (encode (envelope id method input ++ tail)) (bytes "\"Method\":") =
        .ok (encode (goText method)) ∧
      extractJsonStringLoop (encode (envelope id method input ++ tail)) (bytes "\"Input\":") =
        .ok (encode (goText input)) := by
  have hmkey : bytes "\"Method\":" = bytes "\"Method\"" ++ [58] := by decide
  have hikey : bytes "\"Input\":" = bytes "\"Input\"" ++ [58] := by decide
  rw [extractJsonStringLoop_eq, extractJsonStringLoop_eq,
    extractJsonString_eq_field _ hmkey (by decide), extractJsonString_eq_field _ hikey (by decide)]
  have hmethod := (literal_goText method).body
  have hinput := (literal_goText input).body
  constructor
  · rw [envelope_split, field_eq (by decide) hmethod (find_method hid _)]
  · have hsplit : encode (envelope id method input ++ tail) =
        (recvHead id ++ (bytes "\"Method\":" ++ 34 :: (encode (goText method) ++ 34 :: bytes ","))) ++
          (bytes "\"Input\":" ++ 34 :: (encode (goText input) ++ 34 :: recvTail tail)) := by
      rw [envelope_split]
      simp
    rw [hsplit, field_eq (by decide) hinput (find_input_behind hid hmethod _)]

/-- A method that ends with a backslash and an input that holds a key. -/
theorem envelope_fields_keys :
    extractJsonStringLoop (encode (envelope ['1'] (bytes "a\\") (bytes "\"Method\":\"b\"") ++ ['\n']))
        (bytes "\"Method\":") = .ok (encode (goText (bytes "a\\"))) ∧
      extractJsonStringLoop (encode (envelope ['1'] (bytes "a\\") (bytes "\"Method\":\"b\"") ++ ['\n']))
        (bytes "\"Input\":") = .ok (encode (goText (bytes "\"Method\":\"b\""))) :=
  envelope_fields ['1'] ['\n'] (bytes "a\\") (bytes "\"Method\":\"b\"") (by decide)

end SealedSky.TrustedOs
