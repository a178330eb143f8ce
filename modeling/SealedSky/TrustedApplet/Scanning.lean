import SealedSky.TrustedApplet.Serve

/-!
# The scanner of the applet, index by index (`docker/gotee_syscall/src/lib.rs`)

`extract_json_string` as it is written: an index runs over the bytes, by two over a backslash, and
may pass the end of the text or stand inside a character. It is never sliced at there: the slices of
the function stand behind the key, behind a quote and in front of one.

* `extractJsonStringLoop_eq` — the loop over indices finds what `extractJsonString` finds.
* `extractJsonStringLoop_located` — what the function returns, for every text and every ASCII key.
-/
namespace SealedSky.TrustedApplet

open Utf8 Scan Fallible

/-- The `while` loop (lib.rs:248) from `end = i` on. -/
def scanValue (content : List UInt8) (i : Nat) : Except Halt (List UInt8) :=
  if h : i < content.length then
    if content[i] = 92 then scanValue content (i + 2)
    else if content[i] = 34 then slice (sliceTo? content i)
    else scanValue content (i + 1)
  else .ok []
termination_by content.length - i

/-- `extract_json_string` (lib.rs:238). -/
def extractJsonStringLoop (json key : List UInt8) : Except Halt (List UInt8) :=
  match find key json with
  | none => .ok []
  | some keyPos => do
    let afterKey ← slice (sliceFrom? json (keyPos + key.length))
    match find [34] afterKey with
    | none => .ok []
    | some quoteStart => do
      let content ← slice (sliceFrom? afterKey (quoteStart + 1))
      scanValue content 0

/-- What the loop does with the place of the closing quote. -/
def sliceAt (content : List UInt8) (n : Option Nat) : Except Halt (List UInt8) :=
  match n with
  | none => .ok []
  | some n => slice (sliceTo? content n)

/-- The loop ends at the quote that `closing` finds in what is left. -/
theorem scanValue_eq (content : List UInt8) (i : Nat) :
    scanValue content i = sliceAt content ((closing 34 92 (content.drop i)).map (· + i)) := by
  rw [scanValue]
  by_cases h : i < content.length
  · rw [dif_pos h, List.drop_eq_getElem_cons h]
    by_cases hback : content[i] = 92
    · -- the byte behind the backslash is passed over, if there is one
      rw [if_pos hback, scanValue_eq content (i + 2), hback]
      by_cases hnext : i + 1 < content.length
      · rw [List.drop_eq_getElem_cons hnext, closing_esc, Option.map_map]
        congr 2
        funext n
        simp only [Function.comp_apply]
        omega
      · rw [List.drop_eq_nil_of_le (by omega), List.drop_eq_nil_of_le (by omega)]
        rfl
    · rw [if_neg hback]
      by_cases hquote : content[i] = 34
      · rw [if_pos hquote, hquote, closing_quote (by decide), Option.map_some, Nat.zero_add]
        rfl
      · rw [if_neg hquote, scanValue_eq content (i + 1), closing_plain hquote hback, Option.map_map]
        congr 2
        funext n
        simp only [Function.comp_apply]
        omega
  · rw [dif_neg h, List.drop_eq_nil_of_le (by omega)]
    rfl
termination_by content.length - i

theorem extractJsonStringLoop_eq (json key : List UInt8) :
    extractJsonStringLoop json key = extractJsonString json key := by
  have hscan : ∀ content, scanValue content 0 = sliceAt content (closing 34 92 content) := by
    intro content
    rw [scanValue_eq, List.drop_zero]
    cases closing 34 92 content with
    | none => rfl
    | some n => rfl
  unfold extractJsonStringLoop extractJsonString
  simp only [hscan]
  rfl

/-- `value` in a text: behind the first quote behind the first occurrence of `key`, and in front of a
quote that no backslash of the value escapes. -/
structure Located (json key value : List UInt8) : Prop where
  text : ∃ cs, value = encode cs
  split : ∃ pre gap rest, json = pre ++ key ++ (gap ++ 34 :: (value ++ 34 :: rest)) ∧ 34 ∉ gap ∧
    ∀ pre' post, json = pre' ++ key ++ post → pre.length ≤ pre'.length
  body : Body 34 92 value
  paired : ∀ front k, value = front ++ List.replicate k 92 → front.getLast? ≠ some 92 → k % 2 = 0

/-- An ASCII text ends with an ASCII byte. -/
theorem bytes_concat {s : String} (hne : s ≠ "") (hs : ∀ c ∈ s.toList, c.toNat < 0x80) :
    ∃ k a, bytes s = k ++ [a] ∧ a.toNat < 0x80 := by
  have hlist : s.toList ≠ [] := fun h => hne (String.toList_eq_nil_iff.1 h)
  obtain ⟨cs, c, hcs⟩ := (List.eq_nil_or_concat s.toList).resolve_left hlist
  have hc : c.toNat < 0x80 := hs c (by rw [hcs]; simp)
  refine ⟨encode cs, UInt8.ofNat c.toNat, ?_, ?_⟩
  · rw [bytes, hcs, List.concat_eq_append, encode_append, encode_cons, encodeChar_ascii hc]
    simp
  · rw [UInt8.toNat_ofNat', Nat.mod_eq_of_lt (by omega)]
    exact hc

/-- A field that is not empty is in the text. -/
theorem field_located {cs : List Char} {key value : List UInt8}
    (h : field 34 92 key (encode cs) = value) (hne : value ≠ []) : Located (encode cs) key value := by
  obtain ⟨hbody, pre, gap, rest, hsplit, hgap, hfirst⟩ := field_sound h hne
  refine ⟨?_, ⟨pre, gap, rest, hsplit, hgap, hfirst⟩, hbody, fun _ _ => hbody.even_escapes⟩
  rw [← List.append_assoc] at hsplit
  obtain ⟨-, es, -, hes⟩ := encode_split_ascii (by decide) cs _ _ hsplit
  obtain ⟨ds, -, hds, -⟩ := encode_split_ascii (by decide) es _ _ hes.symm
  exact ⟨ds, hds⟩

/-- **The scanner never panics, and what it returns is in the text.** For every text and every ASCII
key: it comes to an end, no slice is refused, and a result that is not empty stands where the key and
the quotes say. -/
theorem extractJsonStringLoop_located (cs : List Char) (key : String) (hne : key ≠ "")
    (hkey : ∀ c ∈ key.toList, c.toNat < 0x80) :
    ∃ value, extractJsonStringLoop (encode cs) (bytes key) = .ok value ∧
      (value ≠ [] → Located (encode cs) (bytes key) value) := by
  obtain ⟨k, a, hka, ha⟩ := bytes_concat hne hkey
  refine ⟨field 34 92 (bytes key) (encode cs), ?_, field_located rfl⟩
  rw [extractJsonStringLoop_eq]
  exact extractJsonString_eq_field cs hka ha

/-- A text that was cut off behind a value that ends with an escape. -/
theorem extractJsonStringLoop_located_cut :
    ∃ value, extractJsonStringLoop (encode "\x7b\"Method\":\"é\\\\\",\"Inp".toList)
        (bytes "\"Method\":") = .ok value ∧
      (value ≠ [] → Located (encode "\x7b\"Method\":\"é\\\\\",\"Inp".toList)
        (bytes "\"Method\":") value) :=
  extractJsonStringLoop_located _ "\"Method\":" (by decide) (by decide)

end SealedSky.TrustedApplet
