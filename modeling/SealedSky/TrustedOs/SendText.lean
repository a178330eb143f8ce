import SealedSky.TrustedOs.Replies

/-!
# The text of a reply (`docker/gotee_syscall/src/lib.rs`)

`write_json_string` always writes a literal, and what the literal stands for is the output only if
the output is ASCII: a byte from 0x80 on is written as a character of its own. `JsonBuf` drops a piece
that does not fit and `serve` goes on behind it, but every piece is shorter than the tail, so there is
no room for the tail once a piece was dropped, and the brackets of the message stay open.

* `writeJsonString_reads_iff` — when a string that fits is read back.
* `sendMessage_complete` — a message is a start of the whole one, and JSON only if it is all of it.
-/
namespace SealedSky.TrustedOs

open TrustedApplet Utf8 Scan JsonText

/-! ## What a literal stands for -/

theorem asciiText_encode : ∀ {cs : List Char}, (∀ c ∈ cs, c.toNat < 0x80) → asciiText (encode cs) = cs
  | [], _ => rfl
  | c :: cs, h => by
    have hc := h c List.mem_cons_self
    have hval : (UInt8.ofNat c.toNat).toNat = c.toNat := by
      rw [UInt8.toNat_ofNat', Nat.mod_eq_of_lt (by omega)]
    have hrest := asciiText_encode fun d hd => h d (List.mem_cons_of_mem _ hd)
    rw [encode_cons, encodeChar_ascii hc, List.singleton_append, asciiText, List.map_cons, hval,
      Char.ofNat_toNat, ← asciiText, hrest]

/-- The bytes of a text, taken for characters, are the text only if it is ASCII. -/
theorem asciiText_encode_iff {cs : List Char} :
    asciiText (encode cs) = cs ↔ ∀ c ∈ cs, c.toNat < 0x80 := by
  constructor
  · intro h
    refine ascii_of_encode_length ?_
    have hlen := congrArg List.length h
    rwa [asciiText, List.length_map] at hlen
  · exact asciiText_encode

/-- What `write_json_string` adds to a buffer that has room for it. -/
theorem writeJsonString_of_fits {w : JsonBuf} {s : List UInt8}
    (h : w.bytes.length + (quotedOutput s).length ≤ 1024) :
    (writeJsonString w s).1.bytes = w.bytes ++ 34 :: ((s.flatMap jsonPieces).flatten ++ [34]) := by
  rw [quotedOutput_eq] at h
  rw [← quotedOutput_cons, quotedOutput_eq]
  exact (writeAll_of_fits h).2

/-- **When a string is read back.** `write_json_string` puts a literal behind what the buffer holds
that stands for the string, exactly if the string is ASCII. -/
theorem writeJsonString_reads_iff (w : JsonBuf) (output : List Char)
    (hfits : w.bytes.length + (quotedOutput (encode output)).length ≤ 1024) :
    (∃ bs, (writeJsonString w (encode output)).1.bytes = w.bytes ++ 34 :: (bs ++ [34]) ∧
      Literal bs output) ↔ ∀ c ∈ output, c.toNat < 0x80 := by
  rw [← asciiText_encode_iff]
  have hlit := literal_jsonPieces (encode output)
  constructor
  · rintro ⟨bs, hbytes, hbs⟩
    rw [writeJsonString_of_fits hfits] at hbytes
    have hsame := List.append_cancel_right (List.cons.inj (List.append_cancel_left hbytes)).2
    exact literal_unique hlit (hsame ▸ hbs)
  · intro h
    rw [h] at hlit
    exact ⟨_, writeJsonString_of_fits hfits, hlit⟩

theorem writeJsonString_reads_iff_hi :
    (∃ bs, (writeJsonString .new (encode ['h', 'i', '\n'])).1.bytes =
      JsonBuf.new.bytes ++ 34 :: (bs ++ [34]) ∧ Literal bs ['h', 'i', '\n']) ↔
      ∀ c ∈ ['h', 'i', '\n'], c.toNat < 0x80 :=
  writeJsonString_reads_iff .new ['h', 'i', '\n'] (by decide)

/-- `é` is written as `Ã©`. -/
theorem writeJsonString_not_read :
    ¬ ∀ (w : JsonBuf) (output : List Char),
        w.bytes.length + (quotedOutput (encode output)).length ≤ 1024 →
        ∃ bs, (writeJsonString w (encode output)).1.bytes = w.bytes ++ 34 :: (bs ++ [34]) ∧
          Literal bs output := by
  intro hall
  obtain ⟨bs, hbytes, hbs⟩ := hall .new ['é'] (by decide)
  have hwritten : (writeJsonString .new (encode ['é'])).1.bytes =
      JsonBuf.new.bytes ++ 34 :: ([0xC3, 0x83, 0xC2, 0xA9] ++ [34]) := by decide
  rw [hwritten] at hbytes
  have hsame := List.append_cancel_right (List.cons.inj (List.append_cancel_left hbytes)).2
  have hread := unquote_literal hbs (n := 5) (by decide) []
  rw [← hsame] at hread
  exact absurd hread (by decide)

/-! ## Whole messages and broken ones -/

theorem isText_fullMessage (output : List UInt8) : IsText (fullMessage output) := by
  have hword : ∀ s : String, (∀ c ∈ s.toList, 0x20 ≤ c.toNat ∧ c ≠ '"' ∧ c ≠ '\\') →
      Literal (bytes s) s.toList := fun s h => literal_encode h
  have hid : Derives .value [50] := by
    have hnum : IsNumber [] [50] [] [] := ⟨.inl rfl, .inr ⟨⟨by decide, by decide⟩, by decide⟩, .inl rfl, .inl rfl⟩
    exact .number hnum
  have hsend : Derives .value (34 :: (bytes "RPC.Send" ++ [34])) := .string (hword _ (by decide))
  have hout : Derives .value (34 :: ((output.flatMap jsonPieces).flatten ++ [34])) :=
    .string (literal_jsonPieces output)
  have hparams : Derives .value (91 :: (_ ++ [93])) := .array (.lastElement
    (Derives.tight (.object (.lastMember (.named (hword "Output" (by decide)) hout)))))
  have hmsg := Derives.object (.members (.named (hword "method" (by decide)) hsend)
    (.members (.named (hword "params" (by decide)) hparams)
      (.lastMember (.named (hword "id" (by decide)) hid))))
  have hhead : sendHead ++ [34] = 123 :: 34 :: (bytes "method" ++ 34 :: 58 :: 34 ::
      (bytes "RPC.Send" ++ 34 :: 44 :: 34 :: (bytes "params" ++ 34 :: 58 :: 91 :: 123 :: 34 ::
        (bytes "Output" ++ [34, 58, 34])))) := by decide
  have htail : sendTail = 125 :: 93 :: 44 :: 34 :: (bytes "id" ++ [34, 58, 50, 125]) := by decide
  have heq : fullMessage output = _ := fullMessage_split output
  rw [hhead, htail] at heq
  have ht := hmsg.tight
  unfold IsText
  rw [heq]
  simpa using ht

/-- Wherever the quoted output is broken off, the three brackets of the head are open. -/
theorem level_cut (output : List UInt8) (k : Nat) :
    (place ⟨0, .outside⟩ (sendHead ++ (quotedOutput output).take k)).level = 3 := by
  have hhead : place ⟨0, .outside⟩ sendHead = ⟨3, .outside⟩ := by decide
  rw [place_append, hhead, quotedOutput_cons]
  cases k with
  | zero => rfl
  | succ k =>
    have hopen : Place.next ⟨3, .outside⟩ 34 = ⟨3, .inside⟩ := rfl
    rw [List.take_succ_cons, place_cons, hopen]
    by_cases hk : k ≤ (output.flatMap jsonPieces).flatten.length
    · rw [List.take_append_of_le_length hk]
      exact level_take_body 3 (body_pieces output) k
    · rw [List.take_of_length_le (by rw [List.length_append, List.length_singleton]; omega),
        place_append, place_body 3 (body_pieces output)]
      rfl

theorem asciiText_injective {as bs : List UInt8} (h : asciiText as = asciiText bs) : as = bs := by
  refine List.map_injective_iff.2 ?_ h
  intro a b hab
  have hval : ∀ c : UInt8, (Char.ofNat c.toNat).toNat = c.toNat := by
    intro c
    have hlt := c.toNat_lt
    exact toNat_ofNat (Or.inl (by omega))
  have hnat := congrArg Char.toNat hab
  simp only [hval] at hnat
  exact UInt8.toNat_inj.1 hnat

/-- Two outputs are never sent in one message. -/
theorem fullMessage_injective {as bs : List UInt8} (h : fullMessage as = fullMessage bs) : as = bs := by
  have hread := decodeSend_fullMessage as
  rw [h, decodeSend_fullMessage, Option.some.injEq] at hread
  exact (asciiText_injective (String.ofList_injective hread)).symm

/-- `JsonBuf` holds 1024 bytes. -/
theorem sendMessage_length (output : List UInt8) : (sendMessage output).length ≤ 1024 :=
  JsonBuf.length_le _

/-- **A message is sent whole or not at all.** What `serve` sends is a start of the whole message, and
all of it exactly if that has at most 1024 bytes. A longer one is no JSON text, so what is sent is
never the whole message of another output. -/
theorem sendMessage_complete (output : List UInt8) :
    sendMessage output <+: fullMessage output ∧
      (sendMessage output = fullMessage output ↔ (fullMessage output).length ≤ 1024) ∧
      IsText (fullMessage output) ∧
      (IsText (sendMessage output) ↔ (fullMessage output).length ≤ 1024) ∧
      ∀ other, sendMessage output = fullMessage other → other = output := by
  have hwhole : (fullMessage output).length ≤ 1024 → sendMessage output = fullMessage output :=
    sendMessage_of_fits
  have hbroken : 1024 < (fullMessage output).length → ¬ IsText (sendMessage output) := by
    intro h
    obtain ⟨k, -, hsent⟩ := sendMessage_cut h
    refine not_text_of_level ?_
    rw [hsent, level_cut]
    decide
  have htext : IsText (sendMessage output) ↔ (fullMessage output).length ≤ 1024 := by
    constructor
    · intro h
      exact Nat.le_of_not_lt fun hlong => hbroken hlong h
    · intro h
      rw [hwhole h]
      exact isText_fullMessage output
  refine ⟨?_, ⟨fun h => h ▸ sendMessage_length output, hwhole⟩, isText_fullMessage output, htext, ?_⟩
  · by_cases h : (fullMessage output).length ≤ 1024
    · exact ⟨[], by rw [List.append_nil, hwhole h]⟩
    · obtain ⟨k, -, hsent⟩ := sendMessage_cut (Nat.lt_of_not_le h)
      rw [hsent, fullMessage, List.append_assoc]
      exact (List.prefix_append_right_inj _).2
        ((List.take_prefix k _).trans (List.prefix_append _ _))
  · intro other h
    have hfits := htext.1 (h ▸ isText_fullMessage other)
    exact fullMessage_injective (h.symm.trans (hwhole hfits))

end SealedSky.TrustedOs
