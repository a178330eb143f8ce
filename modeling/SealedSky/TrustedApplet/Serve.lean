import SealedSky.Lib.Fallible
import SealedSky.Lib.Utf8
import SealedSky.Lib.Scan

/-!
# The applet's dispatch loop (`docker/gotee_syscall/src/lib.rs`)

`serveTurn` is one iteration of `serve`: read the `RPC.Recv` response into `rpc_buf`, cut `Method`
and `Input` out of it, call the handler, and pass the `RPC.Send` message on. A Rust string is its
bytes; a slice that Rust refuses is a panic, and a panic ends the applet (the panic handler calls
`exit`).

* `extractJsonString_eq_field` — on checked UTF-8 no slice is refused.
* `recvRequest_eq` — what reaches the handler, for every response.
* `sendMessage_of_fits`, `sendMessage_cut` — a message of at most 1024 bytes is sent whole; a longer
  one is broken off at the end of its output at the latest.
-/
namespace SealedSky.TrustedApplet

open Utf8 Scan Fallible

/-- The ways out of the loop. -/
inductive Halt where
  | exit
  | panic
  deriving DecidableEq

/-- `[u8; n]`. -/
structure Buf (n : Nat) where
  bytes : List UInt8
  length_eq : bytes.length = n
  deriving DecidableEq

namespace Buf

variable {n : Nat}

def zero (n : Nat) : Buf n := ⟨List.replicate n 0, List.length_replicate⟩

/-- `&buf[..k]`. -/
def upTo (b : Buf n) (k : Nat) : Except Halt (List UInt8) :=
  if k ≤ n then .ok (b.bytes.take k) else .error .panic

/-- The buffer with as much of `bs` as fits written over its start. -/
def overlay (b : Buf n) (bs : List UInt8) : Buf n where
  bytes := bs.take n ++ b.bytes.drop (bs.take n).length
  length_eq := by
    have := b.length_eq
    simp only [List.length_append, List.length_take, List.length_drop]
    omega

theorem upTo_of_le {b : Buf n} {k : Nat} (h : k ≤ n) : b.upTo k = .ok (b.bytes.take k) := by
  rw [upTo, if_pos h]

theorem upTo_overlay (b : Buf n) (bs : List UInt8) :
    (b.overlay bs).upTo (min bs.length n) = .ok (bs.take n) := by
  rw [upTo_of_le (by omega), overlay, List.take_left' (by simp only [List.length_take]; omega)]

end Buf

/-- `rpc_response` (lib.rs:111): the response is cut at the end of the buffer. -/
def rpcResponse {n : Nat} (resp : List UInt8) (buf : Buf n) : Buf n × Nat :=
  (buf.overlay resp, min resp.length n)

/-- `core::str::from_utf8(bytes).unwrap_or("")`. -/
def fromUtf8OrEmpty (bs : List UInt8) : List UInt8 := if (decode? bs).isSome then bs else []

/-- A string slice; an index that is no character boundary panics. -/
def slice (s : Option (List UInt8)) : Except Halt (List UInt8) :=
  match s with
  | some t => .ok t
  | none => .error .panic

/-- `extract_json_string` (lib.rs:238). Its `while` loop is `closing`, on `"` and `\`
(`extractJsonStringLoop_eq`). -/
def extractJsonString (json key : List UInt8) : Except Halt (List UInt8) :=
  match find key json with
  | none => .ok []
  | some keyPos => do
    let afterKey ← slice (sliceFrom? json (keyPos + key.length))
    match find [34] afterKey with
    | none => .ok []
    | some quoteStart => do
      let content ← slice (sliceFrom? afterKey (quoteStart + 1))
      match closing 34 92 content with
      | none => .ok []
      | some e => slice (sliceTo? content e)

/-! ## The reply -/

/-- `JsonBuf` (lib.rs:189): the bytes written so far, `&buf[..pos]`. -/
structure JsonBuf where
  bytes : List UInt8
  length_le : bytes.length ≤ 1024

namespace JsonBuf

def new : JsonBuf := ⟨[], Nat.zero_le _⟩

/-- `write_str` (lib.rs:208), and whether it returned `Ok`: a string that does not fit is not
written at all. -/
def writeStr (w : JsonBuf) (s : List UInt8) : JsonBuf × Bool :=
  if h : w.bytes.length + s.length > 1024 then (w, false)
  else (⟨w.bytes ++ s, by rw [List.length_append]; omega⟩, true)

/-- A chain of `write_str` calls joined by `?`. -/
def writeAll (w : JsonBuf) : List (List UInt8) → JsonBuf × Bool
  | [] => (w, true)
  | p :: ps =>
    match w.writeStr p with
    | (w', true) => w'.writeAll ps
    | (w', false) => (w', false)

end JsonBuf

/-- What `write!(w, "{:04x}", b)` writes: the padding zeros one by one, then the digits. -/
def hexPieces (b : UInt8) : List (List UInt8) :=
  let digits := Nat.toDigits 16 b.toNat
  List.replicate (4 - digits.length) (bytes "0") ++ [encode digits]

/-- The arms of `write_json_string` (lib.rs:222). The last one writes `b as char`, so a byte from
0x80 on becomes a character of its own. -/
def jsonPieces (b : UInt8) : List (List UInt8) :=
  if b = 34 then [bytes "\\\""]
  else if b = 92 then [bytes "\\\\"]
  else if b = 10 then [bytes "\\n"]
  else if b = 13 then [bytes "\\r"]
  else if b = 9 then [bytes "\\t"]
  else if b.toNat ≤ 0x1f then bytes "\\u" :: hexPieces b
  else [String.utf8EncodeChar (Char.ofNat b.toNat)]

/-- `write_json_string` (lib.rs:219). -/
def writeJsonString (w : JsonBuf) (s : List UInt8) : JsonBuf × Bool :=
  w.writeAll ([bytes "\""] ++ s.flatMap jsonPieces ++ [bytes "\""])

/-- lib.rs:175. -/
def sendHead : List UInt8 := bytes "\x7b\"method\":\"RPC.Send\",\"params\":[\x7b\"Output\":"

/-- lib.rs:177. -/
def sendTail : List UInt8 := bytes "\x7d],\"id\":2\x7d"

/-- The bytes `serve` passes to `rpc_request` (lib.rs:174). The three results are ignored. -/
def sendMessage (output : List UInt8) : List UInt8 :=
  let send := JsonBuf.new
  let send := (send.writeStr sendHead).1
  let send := (writeJsonString send output).1
  let send := (send.writeStr sendTail).1
  send.bytes

/-! ## The loop -/

/-- `Handler` (lib.rs:142): method, input and out buffer to the number of bytes written. -/
abbrev Handler (σ : Type) :=
  σ → List UInt8 → List UInt8 → Buf 4096 → Except Halt (σ × Buf 4096 × Nat)

/-- What lives across the iterations: the two buffers of `serve` and the handler's own state. -/
structure Mem (σ : Type) where
  rpcBuf : Buf 4096
  outBuf : Buf 4096
  user : σ

/-- The buffers as `serve` declares them (lib.rs:153). -/
def Mem.start {σ : Type} (user : σ) : Mem σ := ⟨.zero 4096, .zero 4096, user⟩

/-- A call of the handler. -/
structure Request where
  method : List UInt8
  input : List UInt8
  deriving DecidableEq

/-- One iteration: the memory it leaves, the request it dispatched, the handler's output and the
`RPC.Send` message. -/
structure Turn (σ : Type) where
  mem : Mem σ
  req : Request
  output : List UInt8
  sent : List UInt8

variable {σ : Type}

/-- `serve` up to the call of the handler (lib.rs:158-167). -/
def recvRequest (resp : List UInt8) (mem : Mem σ) : Except Halt (Request × Mem σ) := do
  let (rpcBuf, n) := rpcResponse resp mem.rpcBuf
  let received ← rpcBuf.upTo n
  let json := fromUtf8OrEmpty received
  let method ← extractJsonString json (bytes "\"Method\":")
  let input ← extractJsonString json (bytes "\"Input\":")
  if method = bytes "__exit" then .error .exit
  else .ok (⟨method, input⟩, { mem with rpcBuf := rpcBuf })

/-- `serve` from the call of the handler to the `RPC.Send` message (lib.rs:170-179). -/
def dispatch (handler : Handler σ) (req : Request) (mem : Mem σ) : Except Halt (Turn σ) := do
  let (user, outBuf, nOut) ← handler mem.user req.method req.input mem.outBuf
  let written ← outBuf.upTo nOut
  let output := fromUtf8OrEmpty written
  .ok ⟨{ mem with outBuf := outBuf, user := user }, req, output, sendMessage output⟩

/-- One iteration of `serve` (lib.rs:156); `resp` and `ack` are what the two `rpc_response` calls
find. -/
def serveTurn (handler : Handler σ) (resp ack : List UInt8) (mem : Mem σ) :
    Except Halt (Turn σ) := do
  let (req, mem) ← recvRequest resp mem
  let turn ← dispatch handler req mem
  .ok { turn with mem := { turn.mem with rpcBuf := (rpcResponse ack turn.mem.rpcBuf).1 } }

/-- `serve` over the responses and acknowledgements the Trusted OS has for it. -/
def serveRun (handler : Handler σ) :
    List (List UInt8 × List UInt8) → Mem σ → Except Halt (List (Turn σ))
  | [], _ => .ok []
  | (resp, ack) :: rest, mem => do
    let turn ← serveTurn handler resp ack mem
    let turns ← serveRun handler rest turn.mem
    .ok (turn :: turns)

/-- The message of a turn is made from its output alone. -/
theorem dispatch_eq_ok {handler : Handler σ} {req : Request} {mem : Mem σ} {turn : Turn σ}
    (h : dispatch handler req mem = .ok turn) :
    turn.req = req ∧ turn.sent = sendMessage turn.output := by
  obtain ⟨⟨user, outBuf, n⟩, -, h⟩ := bind_eq_ok.1 h
  obtain ⟨out, -, h⟩ := bind_eq_ok.1 h
  cases h
  exact ⟨rfl, rfl⟩

/-- What a turn consists of. -/
theorem serveTurn_eq_ok {handler : Handler σ} {resp ack : List UInt8} {mem : Mem σ} {turn : Turn σ}
    (h : serveTurn handler resp ack mem = .ok turn) :
    ∃ mem' turn', recvRequest resp mem = .ok (turn.req, mem') ∧
      dispatch handler turn.req mem' = .ok turn' ∧ turn'.output = turn.output ∧
      turn.sent = sendMessage turn.output := by
  obtain ⟨⟨req, mem'⟩, hrecv, h⟩ := bind_eq_ok.1 h
  obtain ⟨turn', hdisp, h⟩ := bind_eq_ok.1 h
  obtain ⟨hreq, hsent⟩ := dispatch_eq_ok hdisp
  cases h
  refine ⟨mem', turn', ?_, ?_, rfl, hsent⟩
  · rw [hrecv, ← hreq]
  · rw [← hdisp, ← hreq]

/-! ## Reading the request -/

/-- What the handler is given for a text: the fields as they stand in it. -/
def requestOf (json : List UInt8) : Request :=
  ⟨field 34 92 (bytes "\"Method\":") json, field 34 92 (bytes "\"Input\":") json⟩

theorem fromUtf8OrEmpty_text (bs : List UInt8) : ∃ cs, fromUtf8OrEmpty bs = encode cs := by
  unfold fromUtf8OrEmpty
  split
  · rename_i h
    obtain ⟨cs, hcs⟩ := Option.isSome_iff_exists.1 h
    exact ⟨cs, decode?_sound hcs⟩
  · exact ⟨[], rfl⟩

theorem fromUtf8OrEmpty_encode (cs : List Char) : fromUtf8OrEmpty (encode cs) = encode cs := by
  unfold fromUtf8OrEmpty
  rw [decode?_encode]
  rfl

/-- **No slice is refused.** On checked UTF-8, with a key that ends in an ASCII byte, every index
that `extract_json_string` slices at stands right after or right before an ASCII byte. -/
theorem extractJsonString_eq_field (cs : List Char) {key k : List UInt8} {a : UInt8}
    (hkey : key = k ++ [a]) (ha : a.toNat < 0x80) :
    extractJsonString (encode cs) key = .ok (field 34 92 key (encode cs)) := by
  unfold extractJsonString field
  cases hk : find key (encode cs) with
  | none => rfl
  | some keyPos =>
    obtain ⟨pre, post, hsplit, rfl⟩ := find_sound hk
    have hlen : pre.length + key.length = (pre ++ k).length + 1 := by
      simp [hkey, Nat.add_assoc]
    have hcut : encode cs = (pre ++ k) ++ a :: post := by
      rw [hsplit, hkey]
      simp
    obtain ⟨hslice, es, rfl⟩ := sliceFrom?_after_ascii ha hcut
    rw [← hlen] at hslice
    have hdrop : (encode cs).drop (pre.length + key.length) = encode es := by
      rw [hsplit, List.drop_left' (by simp)]
    simp only [hslice, slice, hdrop, ok_bind]
    cases hq : find [34] (encode es) with
    | none => rfl
    | some quoteStart =>
      obtain ⟨pre', post', hsplit', rfl⟩ := find_sound hq
      rw [List.append_assoc, List.singleton_append] at hsplit'
      obtain ⟨hslice', -⟩ := sliceFrom?_after_ascii (by decide) hsplit'
      have hdrop' : (encode es).drop (pre'.length + 1) = post' := by
        rw [hsplit', ← List.singleton_append, ← List.append_assoc, List.drop_left' (by simp)]
      simp only [hslice', hdrop', ok_bind]
      cases hc : closing 34 92 post' with
      | none => rfl
      | some e =>
        obtain ⟨body, rest, rfl, rfl, -⟩ := closing_sound hc
        simp only [sliceTo?_before_ascii (a := 34) (by decide) rfl, List.take_left]

/-- **What reaches the handler.** Reading a request never panics, and the sentinel apart the handler
gets the fields of the first 4096 bytes of the response. -/
theorem recvRequest_eq (resp : List UInt8) (mem : Mem σ) :
    recvRequest resp mem =
      if (requestOf (fromUtf8OrEmpty (resp.take 4096))).method = bytes "__exit" then .error .exit
      else .ok (requestOf (fromUtf8OrEmpty (resp.take 4096)),
        { mem with rpcBuf := mem.rpcBuf.overlay resp }) := by
  obtain ⟨cs, hcs⟩ := fromUtf8OrEmpty_text (resp.take 4096)
  have hmethod : bytes "\"Method\":" = bytes "\"Method\"" ++ [58] := by decide
  have hinput : bytes "\"Input\":" = bytes "\"Input\"" ++ [58] := by decide
  have hm := extractJsonString_eq_field cs hmethod (by decide)
  have hi := extractJsonString_eq_field cs hinput (by decide)
  unfold recvRequest
  simp only [rpcResponse, Buf.upTo_overlay, ok_bind, hcs, hm, hi]
  rfl

/-! ## Writing the reply -/

/-- The quoted output, as `write_json_string` writes it. -/
def quotedOutput (output : List UInt8) : List UInt8 :=
  bytes "\"" ++ (output.flatMap jsonPieces).flatten ++ bytes "\""

/-- The `RPC.Send` message without any size limit. -/
def fullMessage (output : List UInt8) : List UInt8 :=
  sendHead ++ quotedOutput output ++
    sendTail

theorem quotedOutput_eq (output : List UInt8) :
    quotedOutput output = ([bytes "\""] ++ output.flatMap jsonPieces ++ [bytes "\""]).flatten := by
  simp [quotedOutput]

theorem writeStr_of_fits {w : JsonBuf} {s : List UInt8} (h : w.bytes.length + s.length ≤ 1024) :
    (w.writeStr s).2 = true ∧ (w.writeStr s).1.bytes = w.bytes ++ s := by
  unfold JsonBuf.writeStr
  rw [dif_neg (by omega)]
  exact ⟨rfl, rfl⟩

theorem writeStr_of_full {w : JsonBuf} {s : List UInt8} (h : 1024 < w.bytes.length + s.length) :
    (w.writeStr s).1 = w := by
  unfold JsonBuf.writeStr
  rw [dif_pos h]

theorem writeAll_cons_of_ok {p : List UInt8} {ps : List (List UInt8)} {w : JsonBuf}
    (h : (w.writeStr p).2 = true) : w.writeAll (p :: ps) = (w.writeStr p).1.writeAll ps := by
  rw [JsonBuf.writeAll]
  split
  · rename_i w' hw
    rw [hw]
  · rename_i w' hw
    rw [hw] at h
    cases h

theorem writeAll_of_fits : ∀ {ps : List (List UInt8)} {w : JsonBuf},
    w.bytes.length + ps.flatten.length ≤ 1024 →
    (w.writeAll ps).2 = true ∧ (w.writeAll ps).1.bytes = w.bytes ++ ps.flatten
  | [], w, _ => by simp [JsonBuf.writeAll]
  | p :: ps, w, h => by
    rw [List.flatten_cons, List.length_append] at h
    obtain ⟨hok, hb⟩ := writeStr_of_fits (w := w) (s := p) (by omega)
    have hrest : (w.writeStr p).1.bytes.length + ps.flatten.length ≤ 1024 := by
      rw [hb, List.length_append]
      omega
    obtain ⟨hok', hb'⟩ := writeAll_of_fits hrest
    rw [writeAll_cons_of_ok hok, hb', hb, List.flatten_cons, List.append_assoc]
    exact ⟨hok', rfl⟩

/-- The buffer behind the head of the message. -/
theorem writeStr_head :
    (JsonBuf.new.writeStr sendHead).1.bytes = sendHead :=
  (writeStr_of_fits (w := .new) (s := sendHead) (by decide)).2

/-- A reply that fits is sent whole. -/
theorem sendMessage_of_fits {output : List UInt8} (h : (fullMessage output).length ≤ 1024) :
    sendMessage output = fullMessage output := by
  unfold fullMessage at h
  rw [List.length_append, List.length_append, quotedOutput_eq] at h
  have hlen : (JsonBuf.new.writeStr sendHead).1.bytes.length +
      ([bytes "\""] ++ output.flatMap jsonPieces ++ [bytes "\""]).flatten.length ≤ 1024 := by
    rw [writeStr_head]
    omega
  have hstring := (writeAll_of_fits hlen).2
  rw [writeStr_head] at hstring
  unfold sendMessage writeJsonString
  simp only
  rw [(writeStr_of_fits (by
    rw [hstring, List.length_append]
    exact h)).2, hstring, fullMessage, quotedOutput_eq]

/-- Where a chain of short writes stops that does not fit: the buffer is full but for one byte. -/
theorem writeAll_cut : ∀ {ps : List (List UInt8)} {w : JsonBuf}, (∀ p ∈ ps, p.length ≤ 2) →
    1024 < w.bytes.length + ps.flatten.length →
    ∃ k, k < ps.flatten.length ∧ (w.writeAll ps).1.bytes = w.bytes ++ ps.flatten.take k ∧
      1023 ≤ w.bytes.length + k
  | [], w, _, h => by
    have := w.length_le
    simp only [List.flatten_nil, List.length_nil] at h
    omega
  | p :: ps, w, hp, h => by
    have hp2 := hp p List.mem_cons_self
    rw [List.flatten_cons, List.length_append] at h
    rw [List.flatten_cons]
    by_cases hfit : w.bytes.length + p.length ≤ 1024
    · obtain ⟨hok, hb⟩ := writeStr_of_fits hfit
      rw [writeAll_cons_of_ok hok]
      have hrest : 1024 < (w.writeStr p).1.bytes.length + ps.flatten.length := by
        rw [hb, List.length_append]
        omega
      obtain ⟨k, hk, hbytes, hfull⟩ :=
        writeAll_cut (fun d hd => hp d (List.mem_cons_of_mem _ hd)) hrest
      rw [hb, List.length_append] at hfull
      refine ⟨p.length + k, by rw [List.length_append]; omega, ?_, by omega⟩
      rw [hbytes, hb, List.take_length_add_append, List.append_assoc]
    · have := w.length_le
      refine ⟨0, by rw [List.length_append]; omega, ?_, by omega⟩
      have hw : w.writeStr p = (w, false) := by
        unfold JsonBuf.writeStr
        rw [dif_pos (by omega)]
      rw [JsonBuf.writeAll, hw]
      simp

theorem jsonPieces_short (b : UInt8) : ∀ p ∈ jsonPieces b, p.length ≤ 2 := by
  have hall : ∀ n < 256, ∀ p ∈ jsonPieces (UInt8.ofNat n), p.length ≤ 2 := by decide +kernel
  have := hall b.toNat b.toNat_lt
  rwa [UInt8.ofNat_toNat] at this

/-- **A reply that does not fit**: what is sent breaks off inside the quoted output, or right after
it. -/
theorem sendMessage_cut {output : List UInt8} (h : 1024 < (fullMessage output).length) :
    ∃ k, k ≤ (quotedOutput output).length ∧
      sendMessage output = sendHead ++
        (quotedOutput output).take k := by
  have htail : sendTail.length = 10 := by decide
  have hshort : ∀ p ∈ [bytes "\""] ++ output.flatMap jsonPieces ++ [bytes "\""], p.length ≤ 2 := by
    intro p hp
    simp only [List.mem_append, List.mem_singleton, List.mem_flatMap] at hp
    rcases hp with (rfl | ⟨b, -, hp⟩) | rfl
    · decide
    · exact jsonPieces_short b p hp
    · decide
  unfold fullMessage at h
  rw [List.length_append, List.length_append, htail] at h
  by_cases hfit : sendHead.length +
      (quotedOutput output).length ≤ 1024
  · have hlen : (JsonBuf.new.writeStr sendHead).1.bytes.length +
        ([bytes "\""] ++ output.flatMap jsonPieces ++ [bytes "\""]).flatten.length ≤ 1024 := by
      rw [writeStr_head, ← quotedOutput_eq]
      exact hfit
    have hstring := (writeAll_of_fits hlen).2
    rw [writeStr_head, ← quotedOutput_eq] at hstring
    refine ⟨(quotedOutput output).length, Nat.le_refl _, ?_⟩
    unfold sendMessage writeJsonString
    simp only
    rw [writeStr_of_full (by rw [hstring, List.length_append, htail]; omega), hstring,
      List.take_length]
  · obtain ⟨k, hk, hstring, hfull⟩ := writeAll_cut (w := (JsonBuf.new.writeStr sendHead).1) hshort (by
      rw [writeStr_head, ← quotedOutput_eq]
      omega)
    rw [writeStr_head, ← quotedOutput_eq] at hstring
    rw [writeStr_head] at hfull
    rw [← quotedOutput_eq] at hk
    refine ⟨k, Nat.le_of_lt hk, ?_⟩
    unfold sendMessage writeJsonString
    simp only
    rw [writeStr_of_full (by
      rw [hstring, List.length_append, List.length_take, htail]
      omega), hstring]

end SealedSky.TrustedApplet
