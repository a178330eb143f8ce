import SealedSky.Host.CallApplet
import SealedSky.TrustedOs.SendText

/-!
# A call from the host to the handler and back

The bridge, `RPC.Recv`, `serve`, the handler and `RPC.Send` between a `callApplet` on the host and its
result, for any handler.

* `fullMessage_length_le` — an output of 160 bytes fits whatever it holds.
* `roundTrip_handler` — the handler gets the method and the input as the `RPC.Recv` response spells
  them, and the host gets the bytes of the output as characters.
* `host_reads_iff` — the host reads a text that the handler put out if and only if it is ASCII.
-/
namespace SealedSky.Host

open Js Utf8 Fallible
open TrustedOs (AppletCall Armory goString recvResponse serveApplet)
open TrustedApplet (Halt Handler Mem Buf Request fromUtf8OrEmpty fullMessage serveTurn jsonPieces)

/-! ## A call of an idle applet -/

variable {σ : Type}

/-- `CallApplet` (rpc.go:71) with `serve` waiting in `RPC.Recv`, `none` where no reply comes. -/
def serveCall (handler : Handler σ) (ack : Mem σ → AppletCall → List UInt8) :
    Mem σ → AppletCall → Option (Mem σ × String) := fun mem call =>
  (serveApplet handler ack mem call).bind fun a => a.reply.map fun r => (a.mem, r)

/-- A control character takes the longest escape. -/
theorem jsonPieces_length_le (b : UInt8) : (jsonPieces b).flatten.length ≤ 6 := by
  have hall : ∀ n < 256, (jsonPieces (UInt8.ofNat n)).flatten.length ≤ 6 := by decide +kernel
  have h := hall b.toNat b.toNat_lt
  rwa [UInt8.ofNat_toNat] at h

/-- **Every output of 160 bytes fits**, whatever has to be escaped. -/
theorem fullMessage_length_le (output : List UInt8) :
    (fullMessage output).length ≤ 6 * output.length + 64 := by
  have hpieces : (output.flatMap jsonPieces).flatten.length ≤ 6 * output.length := by
    induction output with
    | nil => exact Nat.le_refl _
    | cons b bs ih =>
      have hb := jsonPieces_length_le b
      rw [List.flatMap_cons, List.flatten_append, List.length_append, List.length_cons]
      omega
  have hhead : (TrustedApplet.sendHead ++ [34]).length = 42 := by decide
  have htail : TrustedApplet.sendTail.length = 10 := by decide
  rw [TrustedOs.fullMessage_split, List.length_append, hhead, List.length_append, List.length_cons,
    htail]
  omega

theorem serveCall_of_turn {handler : Handler σ} {ack : Mem σ → AppletCall → List UInt8}
    {mem : Mem σ} {call : AppletCall} {turn : TrustedApplet.Turn σ}
    (h : serveTurn handler (recvResponse call) (ack mem call) mem = .ok turn)
    (hfits : (fullMessage turn.output).length ≤ 1024) :
    serveCall handler ack mem call =
      some (turn.mem, String.ofList (TrustedOs.asciiText turn.output)) := by
  have happlet : serveApplet handler ack mem call =
      some ⟨turn.mem, turn.output, TrustedOs.decodeSend turn.sent⟩ := by
    unfold serveApplet
    rw [h]
  have hreply := TrustedOs.reply_of_fits happlet hfits
  simp only at hreply
  rw [serveCall, happlet, Option.bind_some, hreply]
  rfl

/-! ## The whole way -/

/-- `serve` around a handler that returns. -/
theorem serveTurn_of_handler {handler : Handler σ} {call : AppletCall} {mem : Mem σ}
    (ack : List UInt8) (hfits : (recvResponse call).length ≤ 4096)
    (hexit : encode (goString call.method) ≠ bytes "__exit") {user : σ} {out : Buf 4096} {n : ℕ}
    (hrun : handler mem.user (encode (goString call.method)) (encode (goString call.input))
      mem.outBuf = .ok (user, out, n)) (hn : n ≤ 4096) :
    ∃ turn, serveTurn handler (recvResponse call) ack mem = .ok turn ∧ turn.mem.user = user ∧
      turn.output = fromUtf8OrEmpty (out.bytes.take n) := by
  have hreq : TrustedApplet.requestOf (fromUtf8OrEmpty ((recvResponse call).take 4096)) =
      ⟨encode (goString call.method), encode (goString call.input)⟩ :=
    TrustedOs.received_of_fits hfits
  have hrecv := TrustedApplet.recvRequest_eq (recvResponse call) mem
  rw [hreq, if_neg hexit] at hrecv
  unfold serveTurn TrustedApplet.dispatch
  simp only [hrecv, ok_bind, hrun, Buf.upTo_of_le hn]
  exact ⟨_, rfl, rfl, rfl⟩

section
variable {handler : Handler σ} {d : Armory (Mem σ)} {method input : JsString}

/-- The call that the bridge makes of what the host passed. -/
def hostCall (method input : JsString) : AppletCall :=
  ⟨String.ofList (toWellFormed method), String.ofList (toWellFormed input)⟩

/-- **From the host to the handler and back.** -/
theorem roundTrip_handler (ack : Mem σ → AppletCall → List UInt8)
    (hupload : (hostCall method input).method ≠ "__upload")
    (hexit : encode (goString (hostCall method input).method) ≠ bytes "__exit")
    (hfits : (recvResponse (hostCall method input)).length ≤ 4096)
    {user : σ} {out : Buf 4096} {n : ℕ}
    (hrun : handler d.applet.user (encode (goString (hostCall method input).method))
      (encode (goString (hostCall method input).input)) d.applet.outBuf = .ok (user, out, n))
    (hn : n ≤ 4096) (hreply : (fullMessage (fromUtf8OrEmpty (out.bytes.take n))).length ≤ 1024) :
    ∃ mem, mem.user = user ∧ roundTrip (serveCall handler ack) d method input =
      some (⟨mem, d.sd⟩,
        .ok (.str ((TrustedOs.asciiText (fromUtf8OrEmpty
          (out.bytes.take n))).flatMap units))) := by
  obtain ⟨turn, hturn, huser, hout⟩ :=
    serveTurn_of_handler (ack d.applet (hostCall method input)) hfits hexit hrun hn
  have hserve := serveCall_of_turn hturn (hout ▸ hreply)
  refine ⟨turn.mem, huser, ?_⟩
  rw [roundTrip_call _ d method input hupload]
  have hcall : serveCall handler ack d.applet ⟨String.ofList (toWellFormed method),
      String.ofList (toWellFormed input)⟩ = _ := hserve
  rw [hcall, Option.map_some, String.toList_ofList, hout]

/-- **The host reads the text that a handler put out if and only if it is ASCII**, whatever the
method and the input; from any other output it gets a different text. -/
theorem host_reads_iff (ack : Mem σ → AppletCall → List UInt8)
    (hupload : (hostCall method input).method ≠ "__upload")
    (hexit : encode (goString (hostCall method input).method) ≠ bytes "__exit")
    (hfits : (recvResponse (hostCall method input)).length ≤ 4096)
    {user : σ} {out : Buf 4096} {n : ℕ} {text : List Char}
    (hrun : handler d.applet.user (encode (goString (hostCall method input).method))
      (encode (goString (hostCall method input).input)) d.applet.outBuf = .ok (user, out, n))
    (hn : n ≤ 4096) (htext : out.bytes.take n = encode text)
    (hreply : (fullMessage (encode text)).length ≤ 1024) :
    (∃ mem, mem.user = user ∧ roundTrip (serveCall handler ack) d method input =
      some (⟨mem, d.sd⟩, .ok (.str (text.flatMap units)))) ↔ ∀ c ∈ text, c.toNat < 0x80 := by
  have hout : fromUtf8OrEmpty (out.bytes.take n) = encode text := by
    rw [htext, TrustedApplet.fromUtf8OrEmpty_encode]
  obtain ⟨mem, huser, htrip⟩ := roundTrip_handler ack hupload hexit hfits hrun hn (hout ▸ hreply)
  rw [hout] at htrip
  rw [← TrustedOs.asciiText_encode_iff]
  constructor
  · rintro ⟨mem', -, htrip'⟩
    rw [htrip'] at htrip
    have hunits : text.flatMap units = (TrustedOs.asciiText (encode text)).flatMap units := by
      simp only [Option.some.injEq, Prod.mk.injEq, Except.ok.injEq, JsValue.str.injEq] at htrip
      exact htrip.2
    have hchars := congrArg toWellFormed hunits
    rw [toWellFormed_flatMap_units, toWellFormed_flatMap_units] at hchars
    exact hchars.symm
  · intro hascii
    rw [hascii] at htrip
    exact ⟨mem, huser, htrip⟩

end

/-- `Echo` of the shipped applet. -/
theorem host_reads_echo : ∃ mem', roundTrip (serveCall TrustedApplet.handle fun _ _ => [])
    ⟨.start (), none⟩ (js "Echo") (js "hi") = some (⟨mem', none⟩, .ok (.str (js "hi"))) := by
  let mem : Mem Unit := .start ()
  have htake : (mem.outBuf.overlay (bytes "hi")).bytes.take 2 = encode ['h', 'i'] := by
    unfold Buf.overlay
    rw [List.take_left' (by decide)]
    decide
  have hrun : TrustedApplet.handle mem.user (encode (goString (hostCall (js "Echo") (js "hi")).method))
      (encode (goString (hostCall (js "Echo") (js "hi")).input)) mem.outBuf =
        .ok ((), mem.outBuf.overlay (bytes "hi"), 2) := by
    have hmethod : encode (goString (hostCall (js "Echo") (js "hi")).method) = bytes "Echo" := by
      decide
    have hinput : encode (goString (hostCall (js "Echo") (js "hi")).input) = bytes "hi" := by decide
    rw [hmethod, hinput, TrustedApplet.handle, if_pos rfl]
    rfl
  obtain ⟨mem', -, htrip⟩ := (host_reads_iff (d := ⟨mem, none⟩) (fun _ _ => []) (by decide) (by decide)
    (by decide +kernel) hrun (by decide) htake (by decide +kernel)).2 (by decide)
  exact ⟨mem', htrip⟩

end SealedSky.Host
