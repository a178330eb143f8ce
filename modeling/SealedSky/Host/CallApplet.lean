import SealedSky.Backend.Server
import SealedSky.Host.Literals
import SealedSky.TrustedOs.Bridge

/-!
# A call from the host (`scripts/test-helpers.ts`)

`callApplet` writes one line of JSON into `nc`, reads the reply line back and takes its `Output`.
`roundTrip` is such a call with the bridge of the device at the other end.

* `decodeRequest_requestLine` — the bridge reads the method and the input the host wrote, whatever
  characters they hold.
* `readReply_encodeReply` — the host reads the output or the error that the bridge wrote.
* `roundTrip_call` — a call from the host is the call of the applet.
-/
namespace SealedSky.Host

open Js Utf8
open TrustedOs (Armory Handled BridgeReply handleBridgeConn encodeReply decodeRequest goEscape
  goString goQuoted)

/-- `JSON.stringify({ Method: method, Input: input }) + '\n'` (test-helpers.ts:25). -/
def requestLine (method input : JsString) : JsString :=
  jsonText (.obj [(js "Method", .str method), (js "Input", .str input)]) ++ [10]

/-- What the `nc` process leaves. -/
structure Nc where
  exit : ℤ
  stdout : List UInt8
  stderr : List UInt8

inductive Thrown where
  | error (message : JsString)
  | syntaxError
  | typeError
  deriving DecidableEq

/-- `${n}` of an integer. -/
def printInt (n : ℤ) : JsString := js (toString n)

/-- The text up to the first line break. -/
def firstLine (s : JsString) : JsString := s.takeWhile (· ≠ 10)

/-- `callApplet` behind the exit of `nc` (test-helpers.ts:40). -/
def readReply (nc : Nc) : Except Thrown JsValue :=
  let stdout := textDecode nc.stdout
  let stderr := trim (textDecode nc.stderr)
  if nc.exit ≠ 0 ∨ stdout = [] then
    .error (.error (if stderr = [] then js "nc exited " ++ printInt nc.exit else stderr))
  else
    match parse (firstLine stdout) with
    | none => .error .syntaxError
    | some .null => .error .typeError
    | some reply =>
      let error := reply.get (js "Error")
      if Backend.truthy error then
        match error.toText with
        | none => .error .typeError
        | some message => .error (.error message)
      else
        match reply.get (js "Output") with
        | .undefined => .ok (.str [])
        | .null => .ok (.str [])
        | output => .ok output

variable {σ : Type}

/-- `callApplet` (test-helpers.ts:20) against the bridge. -/
def roundTrip (callApplet : σ → TrustedOs.AppletCall → Option (σ × String)) (d : Armory σ)
    (method input : JsString) : Option (Armory σ × Except Thrown JsValue) :=
  (handleBridgeConn callApplet d (utf8 (requestLine method input))).map fun out =>
    (out.armory, readReply ⟨0, out.written, []⟩)

/-! ## The request line -/

theorem requestLine_split (method input : JsString) :
    requestLine method input = js "\x7b\"Method\":\"" ++ (quotedBody method ++
      (js "\",\"Input\":\"" ++ (quotedBody input ++ js "\"\x7d\n"))) := by
  have hhead : (123 :: quote (js "Method")) ++ [58, 34] = js "\x7b\"Method\":\"" := by decide
  have hmid : [34, 44] ++ (quote (js "Input") ++ [58, 34]) = js "\",\"Input\":\"" := by decide
  have htail : [34, 125, 10] = js "\"\x7d\n" := by decide
  rw [← hhead, ← hmid, ← htail]
  simp [requestLine, jsonText, membersText, isUndefined, quote]

theorem utf8_requestLine (method input : JsString) :
    utf8 (requestLine method input) = 123 :: 34 :: (bytes "Method" ++ 34 :: 58 :: 34 ::
      (utf8 (quotedBody method) ++ 34 :: 44 :: 34 :: (bytes "Input" ++ 34 :: 58 :: 34 ::
        (utf8 (quotedBody input) ++ 34 :: 125 :: [10])))) := by
  have hhead : utf8 (js "\x7b\"Method\":\"") = 123 :: 34 :: (bytes "Method" ++ [34, 58, 34]) := by
    decide
  have hmid : utf8 (js "\",\"Input\":\"") = 34 :: 44 :: 34 :: (bytes "Input" ++ [34, 58, 34]) := by
    decide
  have htail : utf8 (js "\"\x7d\n") = 34 :: 125 :: [10] := by decide
  rw [requestLine_split, utf8_append (wellFormed_ascii (by decide)),
    utf8_append (wellFormed_quotedBody method), utf8_append (wellFormed_ascii (by decide)),
    utf8_append (wellFormed_quotedBody input), hhead, hmid, htail]
  simp

/-- **The bridge reads what the host wrote**, a surrogate on its own as U+FFFD. -/
theorem decodeRequest_requestLine (method input : JsString) :
    decodeRequest (utf8 (requestLine method input)) =
      some ⟨String.ofList (toWellFormed method), String.ofList (toWellFormed input)⟩ := by
  rw [utf8_requestLine]
  exact TrustedOs.decodeRequest_two (spells_quotedBody method) (spells_quotedBody input) [10]

/-! ## The reply line -/

theorem newline_notMem_goEscape (c : Char) : '\n' ∉ goEscape c := by
  have hhex : ∀ n < 16, TrustedOs.hexChar n ≠ '\n' := by decide
  unfold goEscape
  split_ifs with h1 h2 h3 h4 h5 h6 h7 h8 h9
  · decide
  · decide
  · decide
  · decide
  · decide
  · decide
  · decide
  · have hlt : c.toNat < 256 := by
      rcases h8 with h | rfl | rfl | rfl
      · omega
      · decide
      · decide
      · decide
    have := hhex (c.toNat / 16) (by omega)
    have := hhex (c.toNat % 16) (by omega)
    simp_all [eq_comm]
  · have := hhex (c.toNat % 16) (by omega)
    simp_all [eq_comm]
  · rw [List.mem_singleton]
    exact fun h => h5 h.symm

theorem newline_notMem_goQuoted (s : String) : '\n' ∉ goQuoted s := by
  have hmem : '\n' ∉ goString s := by
    intro h
    obtain ⟨c, -, hc⟩ := List.mem_flatMap.1 h
    exact newline_notMem_goEscape c hc
  simp [goQuoted, hmem]

/-- Only a line break has the unit of one. -/
theorem units_newline {c : Char} (h : 10 ∈ units c) : c = '\n' := by
  have hsur : ∀ k < 0x800, (UInt16.ofNat (0xD800 + k)).toNat = 0xD800 + k := by
    intro k hk
    rw [UInt16.toNat_ofNat']
    omega
  unfold units at h
  split at h
  · rename_i hlt
    have hnat := congrArg UInt16.toNat (List.mem_singleton.1 h)
    rw [UInt16.toNat_ofNat', Nat.mod_eq_of_lt hlt] at hnat
    exact Char.toNat_inj.1 hnat.symm
  · have hvalid : c.toNat < 0x110000 := by
      rcases c.valid with h | h
      · exact lt_trans h (by decide)
      · exact h.2
    simp only [List.mem_cons, List.not_mem_nil, or_false] at h
    rcases h with h | h
    · have hnat := congrArg UInt16.toNat h
      rw [hsur _ (by omega)] at hnat
      exact absurd hnat (by simp; omega)
    · have hnat := congrArg UInt16.toNat h
      rw [show 0xDC00 + (c.toNat - 0x10000) % 0x400 = 0xD800 + (0x400 + (c.toNat - 0x10000) % 0x400) by
        omega, hsur _ (by omega)] at hnat
      exact absurd hnat (by simp; omega)

theorem newline_notMem_text (r : BridgeReply) : '\n' ∉ r.text := by
  have hhead : '\n' ∉ "\x7b\"Output\":".toList := by decide
  have hmid : '\n' ∉ ",\"Error\":".toList := by decide
  have htail : '\n' ∉ "\x7d".toList := by decide
  have herr : '\n' ∉ r.errorText := by
    unfold BridgeReply.errorText
    split
    · simp
    · rw [List.mem_append, not_or]
      exact ⟨hmid, newline_notMem_goQuoted r.error⟩
  unfold BridgeReply.text
  simp only [List.mem_append, not_or]
  exact ⟨hhead, newline_notMem_goQuoted r.output, herr, htail⟩

theorem text_head (r : BridgeReply) : ∃ cs, r.text = '\x7b' :: cs := by
  have hhead : "\x7b\"Output\":".toList = '\x7b' :: "\"Output\":".toList := by decide
  unfold BridgeReply.text
  rw [hhead, List.cons_append]
  exact ⟨_, rfl⟩

/-- The line that the host parses is the reply. -/
theorem firstLine_encodeReply (r : BridgeReply) :
    textDecode (encodeReply r) = r.text.flatMap units ++ [10] ∧
      firstLine (textDecode (encodeReply r)) = r.text.flatMap units := by
  have hhead : (r.text ++ ['\n']).head? ≠ some '\uFEFF' := by
    obtain ⟨cs, hcons⟩ := text_head r
    rw [hcons, List.cons_append, List.head?_cons]
    decide
  have htext : textDecode (encodeReply r) = r.text.flatMap units ++ [10] := by
    rw [textDecode, encodeReply, stripBom_encode hhead, decodeLossy_encode, List.flatMap_append]
    rfl
  refine ⟨htext, ?_⟩
  have hplain : ∀ u ∈ r.text.flatMap units, decide (u ≠ 10) = true := by
    intro u hu
    obtain ⟨c, hc, hcu⟩ := List.mem_flatMap.1 hu
    rw [decide_eq_true_eq]
    rintro rfl
    exact newline_notMem_text r (units_newline hcu ▸ hc)
  rw [firstLine, htext, List.takeWhile_append_of_pos hplain]
  simp

/-! ## Parsing the reply -/

/-- The object that a reply stands for. -/
def replyObject (r : BridgeReply) : List (JsString × JsValue) :=
  (js "Output", .str (r.output.toList.flatMap units)) ::
    (if r.error = "" then [] else [(js "Error", .str (r.error.toList.flatMap units))])

theorem members_goQuoted {k : JsString} (s : String) (f : ℕ) (t : JsString) :
    members (f + 2) (quote k ++ 58 :: ((goQuoted s).flatMap units ++ t)) =
      followed 125 (members (f + 1)) (k, .str (s.toList.flatMap units)) t := by
  have hvalue : value (f + 1) ((goQuoted s).flatMap units ++ t) =
      some (.str (s.toList.flatMap units), t) := by
    have hcons : (goQuoted s).flatMap units ++ t = 34 :: ((goString s).flatMap units ++ 34 :: t) := by
      have hquote : units '"' = [34] := by decide
      simp only [goQuoted, List.flatMap_cons, List.flatMap_append, List.flatMap_nil, hquote,
        List.append_nil, List.append_assoc, List.cons_append, List.nil_append]
    rw [hcons, value_string, stringBody_goString]
    rfl
  rw [members, memberName_quote, Option.bind_some]
  simp only [hvalue, Option.bind_some]

theorem parse_text (r : BridgeReply) :
    parse (r.text.flatMap units) = some (.obj (replyObject r)) := by
  have hhead : "\x7b\"Output\":".toList.flatMap units = 123 :: (quote (js "Output") ++ [58]) := by
    decide
  have hmid : ",\"Error\":".toList.flatMap units = 44 :: (quote (js "Error") ++ [58]) := by decide
  have htail : "\x7d".toList.flatMap units = [125] := by decide
  have hsplit : r.text.flatMap units = 123 :: (quote (js "Output") ++ 58 ::
      ((goQuoted r.output).flatMap units ++ (r.errorText.flatMap units ++ [125]))) := by
    unfold BridgeReply.text
    simp only [List.flatMap_append, hhead, htail, List.cons_append, List.append_assoc,
      List.nil_append]
  have hmembers : ∀ f, members (f + 3) (quote (js "Output") ++ 58 ::
      ((goQuoted r.output).flatMap units ++ (r.errorText.flatMap units ++ [125]))) =
        some (replyObject r, []) := by
    intro f
    rw [members_goQuoted]
    unfold BridgeReply.errorText replyObject
    by_cases he : r.error = ""
    · rw [if_pos he, if_pos he]
      exact followed_close (by decide)
    · rw [if_neg he, if_neg he, List.flatMap_append, hmid]
      simp only [List.cons_append, List.append_assoc, List.nil_append]
      refine followed_comma (by decide) ?_
      rw [members_goQuoted]
      exact followed_close (by decide)
  have hvalue : value (2 * (r.text.flatMap units).length + 1) (r.text.flatMap units) =
      some (.obj (replyObject r), []) := by
    have hlen : ∃ f, 2 * (r.text.flatMap units).length = f + 3 := by
      refine ⟨2 * (r.text.flatMap units).length - 3, ?_⟩
      have hquote : 2 ≤ (quote (js "Output")).length := by decide
      rw [hsplit, List.length_cons, List.length_append]
      omega
    obtain ⟨f, hf⟩ := hlen
    rw [hf, hsplit, value_object]
    have hnodup : (keys (replyObject r)).Nodup := by
      unfold replyObject
      split
      · exact (by decide : [js "Output"].Nodup)
      · exact (by decide : [js "Output", js "Error"].Nodup)
    rw [← ofMembers_eq_self hnodup]
    exact bracketed_more (by decide) (by decide) (hmembers f)
  unfold parse
  rw [hvalue]
  rfl

/-- The value that the host parses. -/
theorem readReply_parsed (r : BridgeReply) :
    textDecode (encodeReply r) ≠ [] ∧
      parse (firstLine (textDecode (encodeReply r))) = some (.obj (replyObject r)) := by
  obtain ⟨htext, hline⟩ := firstLine_encodeReply r
  refine ⟨?_, ?_⟩
  · rw [htext]
    simp
  · rw [hline, parse_text]

theorem readReply_output (out : String) (stderr : List UInt8) :
    readReply ⟨0, encodeReply ⟨out, ""⟩, stderr⟩ = .ok (.str (out.toList.flatMap units)) := by
  obtain ⟨hne, hparse⟩ := readReply_parsed ⟨out, ""⟩
  have hget : (JsValue.obj (replyObject ⟨out, ""⟩)).get (js "Error") = .undefined ∧
      (JsValue.obj (replyObject ⟨out, ""⟩)).get (js "Output") = .str (out.toList.flatMap units) :=
    ⟨rfl, rfl⟩
  simp only [readReply, ne_eq, not_true_eq_false, hne, or_self, if_false, hparse, hget,
    Backend.truthy, Bool.false_eq_true]

theorem units_eq_nil {cs : List Char} (h : cs.flatMap units = []) : cs = [] := by
  cases cs with
  | nil => rfl
  | cons c cs =>
    rw [List.flatMap_cons, List.append_eq_nil_iff] at h
    obtain ⟨hc, -⟩ := h
    unfold units at hc
    split at hc
    · cases hc
    · cases hc

theorem readReply_error {e : String} (he : e ≠ "") (stderr : List UInt8) :
    readReply ⟨0, encodeReply ⟨"", e⟩, stderr⟩ = .error (.error (e.toList.flatMap units)) := by
  obtain ⟨hne, hparse⟩ := readReply_parsed ⟨"", e⟩
  have hget : (JsValue.obj (replyObject ⟨"", e⟩)).get (js "Error") =
      .str (e.toList.flatMap units) := by
    unfold replyObject
    rw [if_neg he]
    rfl
  have htruthy : Backend.truthy (.str (e.toList.flatMap units)) = true := by
    have hnil : e.toList.flatMap units ≠ [] := fun h => he (String.toList_inj.1 (units_eq_nil h))
    simp [Backend.truthy, hnil]
  simp only [readReply, ne_eq, not_true_eq_false, hne, or_self, if_false, hparse, hget, htruthy,
    if_true, JsValue.toText_str]

/-! ## The call -/

/-- **A call from the host is the call of the applet.** The applet gets the characters of the method
and the input, a surrogate on its own as U+FFFD, and the host gets the characters of its answer. -/
theorem roundTrip_call (callApplet : σ → TrustedOs.AppletCall → Option (σ × String)) (d : Armory σ)
    (method input : JsString) (hmethod : String.ofList (toWellFormed method) ≠ "__upload") :
    roundTrip callApplet d method input =
      (callApplet d.applet ⟨String.ofList (toWellFormed method),
        String.ofList (toWellFormed input)⟩).map fun p =>
          ({ d with applet := p.1 }, .ok (.str (p.2.toList.flatMap units))) := by
  have hcall : (⟨String.ofList (toWellFormed method), String.ofList (toWellFormed input)⟩ :
      TrustedOs.BridgeRequest).appletCall? = some ⟨String.ofList (toWellFormed method),
        String.ofList (toWellFormed input)⟩ := if_neg hmethod
  unfold roundTrip
  rw [TrustedOs.handleBridgeConn_call (decodeRequest_requestLine method input) hcall,
    Option.map_map]
  cases callApplet d.applet ⟨String.ofList (toWellFormed method),
    String.ofList (toWellFormed input)⟩ with
  | none => simp only [Option.map_none]
  | some p => simp only [Option.map_some, Function.comp_apply, readReply_output]

end SealedSky.Host
