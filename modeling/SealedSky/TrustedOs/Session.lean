import SealedSky.TrustedApplet.Main
import SealedSky.TrustedOs.JsonRpc

/-!
# Calls through the envelope: the Trusted OS and `serve` together

`recvResponse` of a call is what `serve` finds in `rpc_buf`, cut at 4096 bytes; the `RPC.Send`
message of a turn is what the Trusted OS decodes. `serveApplet` is the applet the channels of
`rpc.go` see, with both envelopes in between.

* `serve_exact` — a call that needs no escaping and fits reaches the handler as it was sent.
* `serve_whole_iff` — for ASCII calls of any length, when the handler sees the whole `Input`.
* `serveRun_handle` — the shipped applet dispatches every request, the sentinel apart.
* `callApplet_output` — with replies that fit `JsonBuf`, every caller gets its own output.
-/
namespace SealedSky.TrustedOs

open TrustedApplet Utf8 Scan Sha256 Fallible

/-- The handler call of one iteration of `serve`, if there is one. -/
def invoked {σ : Type} (resp : List UInt8) (mem : Mem σ) : Option Request :=
  match recvRequest resp mem with
  | .ok (req, _) => some req
  | .error _ => none

/-- The request that `serve` reads from the response to a call. -/
def received (call : AppletCall) : Request :=
  requestOf (fromUtf8OrEmpty ((recvResponse call).take 4096))

section
variable {σ : Type}

theorem invoked_eq (call : AppletCall) (mem : Mem σ) :
    invoked (recvResponse call) mem =
      if (received call).method = bytes "__exit" then none else some (received call) := by
  unfold invoked received
  rw [recvRequest_eq]
  generalize requestOf (fromUtf8OrEmpty ((recvResponse call).take 4096)) = req
  by_cases h : req.method = bytes "__exit"
  · simp only [if_pos h]
  · simp only [if_neg h]

theorem invoked_eq_some {call : AppletCall} {mem : Mem σ} {req : Request}
    (h : invoked (recvResponse call) mem = some req) :
    (received call).method ≠ bytes "__exit" ∧ req = received call := by
  rw [invoked_eq] at h
  by_cases hm : (received call).method = bytes "__exit"
  · rw [if_pos hm] at h
    cases h
  · rw [if_neg hm, Option.some.injEq] at h
    exact ⟨hm, h.symm⟩

/-- A turn answers the request it was invoked with. -/
theorem serveTurn_invoked {handler : Handler σ} {resp ack : List UInt8} {mem : Mem σ}
    {turn : Turn σ} (h : serveTurn handler resp ack mem = .ok turn) :
    invoked resp mem = some turn.req := by
  obtain ⟨mem', -, hrecv, -⟩ := serveTurn_eq_ok h
  rw [invoked, hrecv]

/-- The shipped applet answers every request it is invoked with. -/
theorem serveTurn_handle (resp ack : List UInt8) (mem : Mem Unit) {req : Request}
    (h : invoked resp mem = some req) : ∃ turn, serveTurn handle resp ack mem = .ok turn := by
  unfold invoked at h
  cases hr : recvRequest resp mem with
  | error e => simp [hr] at h
  | ok p =>
    obtain ⟨turn, ht, -⟩ := dispatch_handle p.1 p.2
    unfold serveTurn
    simp only [hr, ok_bind, ht]
    exact ⟨_, rfl⟩

theorem serveTurn_signInference {resp ack : List UInt8} {mem : Mem Unit} {turn : Turn Unit}
    (h : serveTurn handle resp ack mem = .ok turn)
    (hm : turn.req.method = bytes "SignInference") :
    turn.output = encode (hexLower (hmac DEVICE_SECRET turn.req.input)) := by
  obtain ⟨mem', turn', -, hdisp, hout, -⟩ := serveTurn_eq_ok h
  rw [← hout]
  exact dispatch_signInference hm hdisp

/-! ## Responses that fit -/

theorem received_of_fits {call : AppletCall} (h : (recvResponse call).length ≤ 4096) :
    received call = ⟨encode (goString call.method), encode (goString call.input)⟩ := by
  unfold received requestOf
  rw [List.take_of_length_le h, recvResponse, fromUtf8OrEmpty_encode, method_field (by decide),
    input_field (by decide)]

/-- **A call that fits and needs no escaping reaches the handler as it was sent**, and
`SignInference` answers with the HMAC of exactly its `Input`. -/
theorem serve_exact (call : AppletCall) (mem : Mem σ) (memS : Mem Unit) (ack : List UInt8)
    (hexit : call.method ≠ "__exit") (hm : Plain call.method) (hi : Plain call.input)
    (hfit : (recvResponse call).length ≤ 4096) :
    invoked (recvResponse call) mem = some ⟨bytes call.method, bytes call.input⟩ ∧
      (call.method = "SignInference" →
        ∃ turn, serveTurn handle (recvResponse call) ack memS = .ok turn ∧
          turn.output = encode (hexLower (hmac DEVICE_SECRET (bytes call.input)))) := by
  have hrec : received call = ⟨bytes call.method, bytes call.input⟩ := by
    rw [received_of_fits hfit, goString_plain hm, goString_plain hi]
    rfl
  have hne : (received call).method ≠ bytes "__exit" := by
    rw [hrec]
    exact fun h => hexit (bytes_injective h)
  have hinv : ∀ {τ : Type} (mem : Mem τ), invoked (recvResponse call) mem =
      some ⟨bytes call.method, bytes call.input⟩ := fun mem => by
    rw [invoked_eq, if_neg hne, hrec]
  refine ⟨hinv mem, fun hs => ?_⟩
  obtain ⟨turn, ht⟩ := serveTurn_handle _ ack memS (hinv memS)
  have hreq := (serveTurn_invoked ht).symm.trans (hinv memS)
  rw [Option.some.injEq] at hreq
  refine ⟨turn, ht, ?_⟩
  rw [serveTurn_signInference ht (by rw [hreq, hs]), hreq]

end

theorem serve_exact_sign :
    invoked (recvResponse ⟨"SignInference", "hi|7|0xabc"⟩) (Mem.start ()) =
        some ⟨bytes "SignInference", bytes "hi|7|0xabc"⟩ ∧
      ("SignInference" = "SignInference" →
        ∃ turn, serveTurn handle (recvResponse ⟨"SignInference", "hi|7|0xabc"⟩) [] (Mem.start ()) =
            .ok turn ∧
          turn.output = encode (hexLower (hmac DEVICE_SECRET (bytes "hi|7|0xabc")))) :=
  serve_exact ⟨"SignInference", "hi|7|0xabc"⟩ (Mem.start ()) (Mem.start ()) [] (by decide)
    (by decide) (by decide) (by decide +kernel)

/-- The sentinel is not dispatched, and a quote in `Input` reaches the handler with its escape. -/
theorem serve_exact_fails :
    (¬ ∀ call : AppletCall, (recvResponse call).length ≤ 4096 →
      invoked (recvResponse call) (Mem.start ()) = some ⟨bytes call.method, bytes call.input⟩) ∧
    (¬ ∀ call : AppletCall, call.method ≠ "__exit" → (recvResponse call).length ≤ 4096 →
      invoked (recvResponse call) (Mem.start ()) = some ⟨bytes call.method, bytes call.input⟩) := by
  constructor
  · intro hall
    have h := hall ⟨"__exit", ""⟩ (by decide +kernel)
    rw [invoked_eq, received_of_fits (by decide +kernel), if_pos (by decide)] at h
    cases h
  · intro hall
    have h := hall ⟨"SignInference", "a\"b"⟩ (by decide) (by decide +kernel)
    rw [invoked_eq, received_of_fits (by decide +kernel), if_neg (by decide)] at h
    exact absurd h (by decide)

/-! ## Responses of any length -/

/-- Every character is below 0x80. -/
def Ascii (s : String) : Prop := ∀ c ∈ s.toList, c.toNat < 0x80

instance (s : String) : Decidable (Ascii s) :=
  inferInstanceAs (Decidable (∀ c ∈ s.toList, c.toNat < 0x80))

theorem goString_length {s : String} (hp : Plain s) (ha : Ascii s) :
    (encode (goString s)).length = s.length := by
  rw [goString_plain hp, encode_length_ascii ha, String.length_toList]

theorem recvText_ascii {call : AppletCall} (hm : Plain call.method) (hma : Ascii call.method)
    (hi : Plain call.input) (hia : Ascii call.input) :
    ∀ c ∈ recvText ['1'] call ++ ['\n'], c.toNat < 0x80 := by
  have hquoted : ∀ t : String, Plain t → Ascii t → ∀ c ∈ goQuoted t, c.toNat < 0x80 := by
    intro t hp ha
    rw [goQuoted, goString_plain hp, List.forall_mem_cons, List.forall_mem_append]
    exact ⟨by decide, ha, by decide⟩
  unfold recvText
  rw [List.forall_mem_append, List.forall_mem_append, List.forall_mem_append,
    List.forall_mem_append, List.forall_mem_append, List.forall_mem_append,
    List.forall_mem_append, List.forall_mem_append, List.forall_mem_append]
  exact ⟨⟨⟨⟨⟨by decide, by decide⟩, by decide⟩,
    ⟨⟨⟨by decide, hquoted _ hm hma⟩, by decide⟩, by decide⟩, hquoted _ hi hia⟩, by decide⟩, by decide⟩

/-- What `serve` reads from an ASCII call of any length. -/
theorem received_ascii {call : AppletCall} (hm : Plain call.method) (hma : Ascii call.method)
    (hi : Plain call.input) (hia : Ascii call.input) :
    received call =
      ⟨if 4096 ≤ 28 + call.method.length then [] else bytes call.method,
        if 4096 ≤ 39 + call.method.length + call.input.length then [] else bytes call.input⟩ := by
  have htake : fromUtf8OrEmpty ((recvResponse call).take 4096) = (recvResponse call).take 4096 := by
    unfold recvResponse
    rw [encode_take_ascii _ (recvText_ascii hm hma hi hia), fromUtf8OrEmpty_encode]
  have hhead : (recvHead ['1']).length = 18 := by decide
  have hmid : (recvMid ['1'] call).length = 30 + call.method.length := by
    have h1 : (bytes "\"Method\":").length = 9 := by decide
    have h2 : (bytes ",").length = 1 := by decide
    simp only [recvMid, List.length_append, List.length_cons, hhead, h1, h2, goString_length hm hma]
    omega
  unfold received requestOf
  rw [htake, recvResponse, method_field_take (by decide), input_field_take (by decide), hhead, hmid,
    goString_length hm hma, goString_length hi hia, goString_plain hm, goString_plain hi]
  have h3 : 30 + call.method.length + 9 + call.input.length =
      39 + call.method.length + call.input.length := by omega
  rw [h3]
  rfl

/-- **When an ASCII call reaches the handler whole.** The closing quote of `Input` has to be among
the first 4096 bytes of the response; if it is not, the handler is given an empty input and
`SignInference` signs that. -/
theorem serve_whole_iff {σ : Type} (call : AppletCall) (mem : Mem σ) (memS : Mem Unit)
    (ack : List UInt8) (hm : Plain call.method) (hma : Ascii call.method) (hi : Plain call.input)
    (hia : Ascii call.input) :
    ((∀ req, invoked (recvResponse call) mem = some req → req.input = bytes call.input) ∧
      (call.method = "SignInference" →
        ∀ turn, serveTurn handle (recvResponse call) ack memS = .ok turn →
          turn.output = encode (hexLower (hmac DEVICE_SECRET (bytes call.input))))) ↔
      call.input = "" ∨ call.method = "__exit" ∨ call.method.length + call.input.length ≤ 4056 := by
  have hrec := received_ascii hm hma hi hia
  constructor
  · rintro ⟨hwhole, -⟩
    by_cases hexit : call.method = "__exit"
    · exact Or.inr (Or.inl hexit)
    by_cases hlen : call.method.length + call.input.length ≤ 4056
    · exact Or.inr (Or.inr hlen)
    -- cut off before its closing quote, `Input` reads as empty
    have hcut : (received call).input = [] := by
      rw [hrec]
      exact if_pos (by omega)
    have hne : (received call).method ≠ bytes "__exit" := by
      rw [hrec]
      simp only
      split
      · decide
      · exact fun h => hexit (bytes_injective h)
    have hinv := invoked_eq call mem
    rw [if_neg hne] at hinv
    have h0 := hwhole _ hinv
    rw [hcut] at h0
    exact Or.inl (bytes_injective h0.symm)
  · intro hcond
    have hinput : (received call).method = bytes "__exit" ∨
        (received call).input = bytes call.input := by
      rw [hrec]
      simp only
      rcases hcond with h | h | h
      · right
        rw [h]
        split <;> rfl
      · left
        rw [h, if_neg (by decide)]
      · right
        rw [if_neg (by omega)]
    have hwhole : ∀ {τ : Type} (mem : Mem τ) req, invoked (recvResponse call) mem = some req →
        req.input = bytes call.input := by
      intro τ mem req hreq
      obtain ⟨hne, rfl⟩ := invoked_eq_some hreq
      exact hinput.resolve_left hne
    refine ⟨hwhole mem, fun hs turn ht => ?_⟩
    have hinv := serveTurn_invoked ht
    have hmethod : turn.req.method = bytes "SignInference" := by
      rw [(invoked_eq_some hinv).2, hrec, hs]
      simp only
      rw [if_neg (by decide)]
    rw [serveTurn_signInference ht hmethod, hwhole memS _ hinv]

theorem serve_whole_echo :
    ((∀ req, invoked (recvResponse ⟨"Echo", "hi"⟩) (Mem.start ()) = some req →
        req.input = bytes "hi") ∧
      ("Echo" = "SignInference" →
        ∀ turn, serveTurn handle (recvResponse ⟨"Echo", "hi"⟩) [] (Mem.start ()) = .ok turn →
          turn.output = encode (hexLower (hmac DEVICE_SECRET (bytes "hi"))))) ↔
      "hi" = "" ∨ "Echo" = "__exit" ∨ "Echo".length + "hi".length ≤ 4056 :=
  serve_whole_iff ⟨"Echo", "hi"⟩ (Mem.start ()) (Mem.start ()) [] (by decide) (by decide) (by decide)
    (by decide)

theorem recvResponse_length {call : AppletCall} (hm : Plain call.method) (hma : Ascii call.method)
    (hi : Plain call.input) (hia : Ascii call.input) :
    (recvResponse call).length = 56 + call.method.length + call.input.length := by
  have hhead : (recvHead ['1']).length = 18 := by decide
  have h1 : (bytes "\"Method\":").length = 9 := by decide
  have h2 : (bytes ",").length = 1 := by decide
  have h3 : (bytes "\"Input\":").length = 8 := by decide
  have h4 : (recvTail ['\n']).length = 16 := by decide
  rw [recvResponse, recv_input_split, recvMid]
  simp only [List.length_append, List.length_cons, hhead, h1, h2, h3, h4, goString_length hm hma,
    goString_length hi hia]
  omega

theorem encode_replicate_a : ∀ n, encode (List.replicate n 'a') = List.replicate n 97
  | 0 => rfl
  | n + 1 => by
    rw [List.replicate_succ, List.replicate_succ, encode_cons, encode_replicate_a n]
    rfl

/-- A text of `n` letters, which needs no escaping. -/
theorem exists_letters (n : Nat) :
    ∃ s : String, Plain s ∧ Ascii s ∧ s.length = n ∧ bytes s = List.replicate n 97 := by
  have hchars : ∀ c ∈ (String.ofList (List.replicate n 'a')).toList, c = 'a' := by
    intro c hc
    rw [String.toList_ofList] at hc
    exact List.eq_of_mem_replicate hc
  refine ⟨String.ofList (List.replicate n 'a'), fun c hc => ?_, fun c hc => ?_, ?_, ?_⟩
  · rw [hchars c hc]
    decide
  · rw [hchars c hc]
    decide
  · rw [String.length_ofList, List.length_replicate]
  · rw [bytes, String.toList_ofList, encode_replicate_a]

/-- `SignInference` with an `Input` of 4096 letters: the handler is given the empty string. -/
theorem serve_truncated :
    ¬ ∀ call : AppletCall, Plain call.method → Ascii call.method → Plain call.input →
      Ascii call.input → ∀ req, invoked (recvResponse call) (Mem.start ()) = some req →
      req.input = bytes call.input := by
  intro hall
  obtain ⟨input, hp, ha, hlen, -⟩ := exists_letters 4096
  have hpm : Plain "SignInference" := by decide
  have ham : Ascii "SignInference" := by decide
  have hrec : received ⟨"SignInference", input⟩ = _ := received_ascii hpm ham hp ha
  simp only at hrec
  rw [hlen, if_neg (by decide), if_pos (by decide)] at hrec
  have hinv := invoked_eq ⟨"SignInference", input⟩ (Mem.start ())
  rw [hrec, if_neg (by decide)] at hinv
  have h0 := hall ⟨"SignInference", input⟩ hpm ham hp ha _ hinv
  have hempty : "" = input := bytes_injective h0
  rw [← hempty] at hlen
  cases hlen

/-! ## The whole loop -/

theorem received_method (call : AppletCall) :
    (received call).method = [] ∨ (received call).method = encode (goString call.method) := by
  unfold received requestOf fromUtf8OrEmpty
  split
  · rw [recvResponse, method_field_take (by decide)]
    simp only
    split
    · exact Or.inl rfl
    · exact Or.inr rfl
  · exact Or.inl (by decide)

/-- Only the sentinel itself reads as the sentinel. -/
theorem method_of_received_exit {call : AppletCall} (h : (received call).method = bytes "__exit") :
    call.method = "__exit" := by
  rcases received_method call with h' | h'
  · rw [h'] at h
    exact absurd h (by decide)
  · rw [h'] at h
    have hraw : goString call.method = "__exit".toList := encode_injective h
    have hplain : Plain call.method := plain_of_backslash_notMem (by rw [hraw]; decide)
    rw [goString_plain hplain] at hraw
    exact String.toList_inj.1 hraw

/-- What reaches the applet of bridge requests, each with the bytes that will acknowledge its reply. -/
def exchanges (reqs : List (BridgeRequest × List UInt8)) : List (AppletCall × List UInt8) :=
  reqs.filterMap fun r => r.1.appletCall?.map (·, r.2)

theorem serveRun_handle_calls : ∀ (xs : List (AppletCall × List UInt8)) (mem : Mem Unit),
    (∀ x ∈ xs, x.1.method ≠ "__exit") →
    ∃ turns, serveRun handle (xs.map fun x => (recvResponse x.1, x.2)) mem = .ok turns ∧
      turns.map Turn.req = xs.map fun x => received x.1
  | [], _, _ => ⟨[], rfl, rfl⟩
  | (call, ack) :: xs, mem, h => by
    have hinv : invoked (recvResponse call) mem = some (received call) := by
      rw [invoked_eq, if_neg]
      exact fun hm => h (call, ack) List.mem_cons_self (method_of_received_exit hm)
    obtain ⟨turn, ht⟩ := serveTurn_handle _ ack mem hinv
    have hreq : turn.req = received call := by
      rw [serveTurn_invoked ht, Option.some.injEq] at hinv
      exact hinv
    obtain ⟨turns, hts, hreqs⟩ := serveRun_handle_calls xs turn.mem fun x hx =>
      h x (List.mem_cons_of_mem _ hx)
    refine ⟨turn :: turns, ?_, ?_⟩
    · simp only [List.map_cons, serveRun, ht, hts, ok_bind]
    · rw [List.map_cons, List.map_cons, hreq, hreqs]

/-- **The shipped applet stays up.** For any sequence of bridge requests without the sentinel, of
any length and content, `serve` neither exits nor panics, and dispatches every request that is not
intercepted, in order. -/
theorem serveRun_handle (reqs : List (BridgeRequest × List UInt8)) (mem : Mem Unit)
    (h : ∀ r ∈ reqs, r.1.method ≠ "__exit") :
    ∃ turns, serveRun handle ((exchanges reqs).map fun x => (recvResponse x.1, x.2)) mem = .ok turns ∧
      turns.map Turn.req = (exchanges reqs).map fun x => received x.1 := by
  refine serveRun_handle_calls (exchanges reqs) mem fun x hx => ?_
  obtain ⟨r, hr, hx⟩ := List.mem_filterMap.1 hx
  obtain ⟨call, hc, rfl⟩ := Option.map_eq_some_iff.1 hx
  unfold BridgeRequest.appletCall? at hc
  split at hc
  · cases hc
  · cases hc
    exact h r hr

theorem serveRun_handle_echo :
    ∃ turns, serveRun handle
        ((exchanges [(⟨"Echo", "hi"⟩, []), (⟨"Nope", "\x7b\"Method\":"⟩, [])]).map fun x =>
          (recvResponse x.1, x.2)) (Mem.start ()) = .ok turns ∧
      turns.map Turn.req =
        (exchanges [(⟨"Echo", "hi"⟩, []), (⟨"Nope", "\x7b\"Method\":"⟩, [])]).map fun x =>
          received x.1 :=
  serveRun_handle [(⟨"Echo", "hi"⟩, []), (⟨"Nope", "\x7b\"Method\":"⟩, [])] (Mem.start ()) (by decide)

/-- A bridge request with method `__exit` ends the loop. -/
theorem serveRun_exit :
    ¬ ∀ reqs : List (BridgeRequest × List UInt8), (∀ r ∈ reqs, r.1.method ≠ "__upload") →
      ∃ turns, serveRun handle ((exchanges reqs).map fun x => (recvResponse x.1, x.2))
        (Mem.start ()) = .ok turns := by
  intro hall
  obtain ⟨turns, ht⟩ := hall [(⟨"__exit", ""⟩, [])] (by decide)
  have hrecv := recvRequest_eq (recvResponse ⟨"__exit", ""⟩) (Mem.start ())
  have hfits : (recvResponse ⟨"__exit", ""⟩).length ≤ 4096 := by decide +kernel
  have hrec := received_of_fits hfits
  unfold received at hrec
  rw [hrec, if_pos (by decide)] at hrecv
  have hturn : serveTurn handle (recvResponse ⟨"__exit", ""⟩) [] (Mem.start ()) = .error .exit := by
    unfold serveTurn
    rw [hrecv]
    rfl
  have hx : exchanges [(⟨"__exit", ""⟩, [])] = [(⟨"__exit", ""⟩, [])] := by decide
  rw [hx, List.map_cons, serveRun, hturn] at ht
  cases ht

end SealedSky.TrustedOs
