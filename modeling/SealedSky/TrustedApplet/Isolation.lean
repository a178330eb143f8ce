import SealedSky.TrustedApplet.Main

/-!
# Requests leave nothing behind (`gotee_syscall/src/lib.rs`, `src/main.rs`)

`rpc_buf` and `out_buf` live across the iterations of `serve` and keep the bytes of earlier requests. A
handler that writes all the bytes it reports does not let them through.

* `handle_overwrites` — the shipped handler writes all the bytes it reports.
* `serveTurn_answers` — what a turn answers does not depend on the memory.
* `serve_noResidue` — two runs answer the same response in the same way.
-/
namespace SealedSky.TrustedApplet

open Utf8 Sha256 Fallible

/-- What a handler reports is what it has written, whatever stood in the out buffer. -/
def Overwrites {σ : Type} (handler : Handler σ) : Prop :=
  ∀ method input, ∃ written, written.length ≤ 4096 ∧ ∀ user out, ∃ user' out',
    handler user method input out = .ok (user', out', written.length) ∧
      out'.bytes.take written.length = written

/-! ## The shipped handler -/

theorem copyInto_written {n : Nat} (src : List UInt8) (out : Buf n) :
    (copyInto src out).2 = (src.take n).length ∧
      (copyInto src out).1.bytes.take (src.take n).length = src.take n := by
  refine ⟨by rw [List.length_take, Nat.min_comm]; rfl, ?_⟩
  unfold copyInto Buf.overlay
  exact List.take_left

theorem signInference_written {n : Nat} {input : List UInt8} (out : Buf n)
    (h : 2 * (hmac DEVICE_SECRET input).length ≤ n) :
    (signInference input out).2 = (encode (hexLower (hmac DEVICE_SECRET input))).length ∧
      (signInference input out).1.bytes.take (encode (hexLower (hmac DEVICE_SECRET input))).length =
        encode (hexLower (hmac DEVICE_SECRET input)) := by
  obtain ⟨hcount, hbytes⟩ := hexEncode_spec out h
  have hlen : (encode (hexLower (hmac DEVICE_SECRET input))).length =
      2 * (hmac DEVICE_SECRET input).length := by
    rw [← hbytes, List.length_take, (hexEncode (hmac DEVICE_SECRET input) out).1.length_eq]
    omega
  unfold signInference
  rw [hlen]
  exact ⟨hcount, hbytes⟩

/-- **The shipped handler writes all the bytes it reports**, in each of its arms. -/
theorem handle_overwrites : Overwrites handle := by
  intro method input
  unfold handle
  by_cases hecho : method = bytes "Echo"
  · refine ⟨input.take 4096, List.length_take_le _ _, fun user out => ?_⟩
    obtain ⟨hcount, hbytes⟩ := copyInto_written input out
    refine ⟨(), (copyInto input out).1, ?_, hbytes⟩
    rw [if_pos hecho, ← hcount]
  · by_cases hsign : method = bytes "SignInference"
    · have hfit : 2 * (hmac DEVICE_SECRET input).length ≤ 4096 := by
        rw [hmac_length]
        decide
      refine ⟨encode (hexLower (hmac DEVICE_SECRET input)), ?_, fun user out => ?_⟩
      · have hbound := hexEncodeFrom_le (hmac DEVICE_SECRET input) (Buf.zero 4096) 0 (Nat.zero_le _)
        rw [← (signInference_written (.zero 4096) hfit).1]
        exact hbound
      · obtain ⟨hcount, hbytes⟩ := signInference_written out hfit
        refine ⟨(), (signInference input out).1, ?_, hbytes⟩
        rw [if_neg hecho, if_pos hsign, ← hcount]
    · refine ⟨(bytes "unknown_method").take 4096, List.length_take_le _ _, fun user out => ?_⟩
      obtain ⟨hcount, hbytes⟩ := copyInto_written (bytes "unknown_method") out
      refine ⟨(), (copyInto (bytes "unknown_method") out).1, ?_, hbytes⟩
      rw [if_neg hecho, if_neg hsign, ← hcount]

/-! ## A turn -/

section
variable {σ : Type} {handler : Handler σ}

theorem dispatch_answers (h : Overwrites handler) (req : Request) :
    ∃ output, ∀ mem, ∃ turn, dispatch handler req mem = .ok turn ∧ turn.output = output := by
  obtain ⟨written, hlen, hwritten⟩ := h req.method req.input
  refine ⟨fromUtf8OrEmpty written, fun mem => ?_⟩
  obtain ⟨user, out, hhandler, htake⟩ := hwritten mem.user mem.outBuf
  unfold dispatch
  simp only [hhandler, ok_bind, Buf.upTo_of_le hlen, htake]
  exact ⟨_, rfl, rfl⟩

/-- The method a response asks for. -/
def methodOf (resp : List UInt8) : List UInt8 :=
  (requestOf (fromUtf8OrEmpty (resp.take 4096))).method

theorem serveTurn_exit {resp : List UInt8} (h : methodOf resp = bytes "__exit") (ack : List UInt8)
    (mem : Mem σ) : serveTurn handler resp ack mem = .error .exit := by
  unfold methodOf at h
  unfold serveTurn
  rw [recvRequest_eq, if_pos h]
  rfl

/-- **What a turn answers does not depend on the memory.** -/
theorem serveTurn_answers (h : Overwrites handler) {resp : List UInt8}
    (hexit : methodOf resp ≠ bytes "__exit") :
    ∃ sent, ∀ ack mem, ∃ turn, serveTurn handler resp ack mem = .ok turn ∧ turn.sent = sent := by
  obtain ⟨output, houtput⟩ := dispatch_answers h (requestOf (fromUtf8OrEmpty (resp.take 4096)))
  unfold methodOf at hexit
  refine ⟨sendMessage output, fun ack mem => ?_⟩
  obtain ⟨turn, hturn, hout⟩ := houtput { mem with rpcBuf := mem.rpcBuf.overlay resp }
  refine ⟨{ turn with mem := { turn.mem with rpcBuf := (rpcResponse ack turn.mem.rpcBuf).1 } }, ?_, ?_⟩
  · unfold serveTurn
    rw [recvRequest_eq, if_neg hexit]
    simp only [ok_bind, hturn]
  · rw [← hout]
    exact (dispatch_eq_ok hturn).2

/-! ## Runs -/

/-- One more response after a run is answered from the memory the run has left. -/
theorem serveRun_concat {served : List (List UInt8 × List UInt8)} {mem : Mem σ}
    {turns : List (Turn σ)} (h : serveRun handler served mem = .ok turns) :
    ∃ mem', ∀ resp ack, serveRun handler (served ++ [(resp, ack)]) mem =
      (serveTurn handler resp ack mem').map fun turn => turns ++ [turn] := by
  induction served generalizing mem turns with
  | nil =>
    cases h
    refine ⟨mem, fun resp ack => ?_⟩
    rw [List.nil_append, serveRun]
    cases serveTurn handler resp ack mem <;> rfl
  | cons p served ih =>
    obtain ⟨resp₀, ack₀⟩ := p
    obtain ⟨turn₀, hturn₀, h⟩ := bind_eq_ok.1 h
    obtain ⟨turns', hturns', h⟩ := bind_eq_ok.1 h
    cases h
    obtain ⟨mem', hmem'⟩ := ih hturns'
    refine ⟨mem', fun resp ack => ?_⟩
    rw [List.cons_append, serveRun, hturn₀]
    simp only [ok_bind, hmem' resp ack]
    cases serveTurn handler resp ack mem' <;> rfl

end

/-- **No residue between requests**: two runs of the shipped applet, whatever they have served, either
both end at a response or answer it with the same `RPC.Send` message. -/
theorem serve_noResidue {served₁ served₂ : List (List UInt8 × List UInt8)}
    {turns₁ turns₂ : List (Turn Unit)} (h₁ : serveRun handle served₁ (.start ()) = .ok turns₁)
    (h₂ : serveRun handle served₂ (.start ()) = .ok turns₂) (resp ack₁ ack₂ : List UInt8) :
    (serveRun handle (served₁ ++ [(resp, ack₁)]) (.start ()) = .error .exit ∧
        serveRun handle (served₂ ++ [(resp, ack₂)]) (.start ()) = .error .exit) ∨
      ∃ turn₁ turn₂,
        serveRun handle (served₁ ++ [(resp, ack₁)]) (.start ()) = .ok (turns₁ ++ [turn₁]) ∧
        serveRun handle (served₂ ++ [(resp, ack₂)]) (.start ()) = .ok (turns₂ ++ [turn₂]) ∧
        turn₁.sent = turn₂.sent := by
  obtain ⟨mem₁, hmem₁⟩ := serveRun_concat h₁
  obtain ⟨mem₂, hmem₂⟩ := serveRun_concat h₂
  rw [hmem₁, hmem₂]
  by_cases hexit : methodOf resp = bytes "__exit"
  · rw [serveTurn_exit hexit, serveTurn_exit hexit]
    exact Or.inl ⟨rfl, rfl⟩
  · obtain ⟨sent, hsent⟩ := serveTurn_answers handle_overwrites hexit
    obtain ⟨turn₁, hturn₁, hsent₁⟩ := hsent ack₁ mem₁
    obtain ⟨turn₂, hturn₂, hsent₂⟩ := hsent ack₂ mem₂
    rw [hturn₁, hturn₂]
    exact Or.inr ⟨turn₁, turn₂, rfl, rfl, hsent₁.trans hsent₂.symm⟩

/-- What `RPC.Recv` returns for a call. -/
def echoResponse (input : String) : List UInt8 :=
  bytes ("\x7b\"result\":\x7b\"Method\":\"Echo\",\"Input\":\"" ++ input ++ "\"\x7d\x7d")

theorem serve_noResidue_echo : ∃ turns,
    serveRun handle [(echoResponse "first", [])] (.start ()) = .ok turns ∧
      ((serveRun handle ([] ++ [(echoResponse "hi", [])]) (.start ()) = .error .exit ∧
          serveRun handle ([(echoResponse "first", [])] ++ [(echoResponse "hi", [])]) (.start ()) =
            .error .exit) ∨
        ∃ turn₁ turn₂,
          serveRun handle ([] ++ [(echoResponse "hi", [])]) (.start ()) = .ok ([] ++ [turn₁]) ∧
          serveRun handle ([(echoResponse "first", [])] ++ [(echoResponse "hi", [])]) (.start ()) =
            .ok (turns ++ [turn₂]) ∧
          turn₁.sent = turn₂.sent) := by
  have hmethod : methodOf (echoResponse "first") ≠ bytes "__exit" := by decide +kernel
  obtain ⟨sent, hsent⟩ := serveTurn_answers handle_overwrites hmethod
  obtain ⟨turn, hturn, -⟩ := hsent [] (.start ())
  have hrun : serveRun handle [(echoResponse "first", [])] (.start ()) = .ok [turn] := by
    rw [serveRun, hturn]
    rfl
  exact ⟨[turn], hrun, serve_noResidue rfl hrun (echoResponse "hi") [] []⟩

end SealedSky.TrustedApplet
