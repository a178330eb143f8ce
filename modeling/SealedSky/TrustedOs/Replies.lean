import SealedSky.TrustedOs.Session

/-!
# The way back: outputs, `RPC.Send` and the callers

`serveApplet` is `serve` as the channels of `rpc.go` see it: a call goes in as an `RPC.Recv`
response, and the turn's `RPC.Send` message comes out as a string, or as nothing if it is no
complete JSON value. A lost message leaves its caller waiting, and the next reply goes to it.

* `literal_jsonPieces` — what stands between the quotes of a reply is a literal, of one character a byte.
* `decodeSend_fullMessage` — a whole message delivers what that literal stands for.
* `decodeSend_cut` — a message that does not fit `JsonBuf` delivers nothing.
* `callApplet_output` — in every run that takes replies in order of arrival and whose messages all
  fit `JsonBuf`, each caller gets the output for its own request.
* `callApplet_shifted` — one output that does not fit, and the next reply goes to the wrong caller.
-/
namespace SealedSky.TrustedOs

open TrustedApplet Utf8 Scan JsonText

/-- `serve` between the two envelopes; `ack` is what the Trusted OS answers to `RPC.Send`. -/
def serveApplet {σ : Type} (handler : Handler σ) (ack : Mem σ → AppletCall → List UInt8) :
    Applet (Mem σ) := fun mem call =>
  match serveTurn handler (recvResponse call) (ack mem call) mem with
  | .ok turn => some ⟨turn.mem, turn.output, decodeSend turn.sent⟩
  | .error _ => none

/-! ## Whole messages -/

/-- 0x20 to 0x7e. -/
def Printable (bs : List UInt8) : Prop := ∀ b ∈ bs, 0x20 ≤ b.toNat ∧ b.toNat ≤ 0x7e

instance (bs : List UInt8) : Decidable (Printable bs) :=
  inferInstanceAs (Decidable (∀ b ∈ bs, 0x20 ≤ b.toNat ∧ b.toNat ≤ 0x7e))

/-- The text of ASCII bytes. -/
def asciiText (bs : List UInt8) : List Char := bs.map fun b => Char.ofNat b.toNat

theorem encode_asciiText : ∀ {bs : List UInt8}, Printable bs → encode (asciiText bs) = bs
  | [], _ => rfl
  | b :: bs, h => by
    have hb := h b List.mem_cons_self
    have hn : (Char.ofNat b.toNat).toNat = b.toNat := toNat_ofNat (Or.inl (by omega))
    rw [asciiText, List.map_cons, encode_cons, encodeChar_ascii (by omega), hn, UInt8.ofNat_toNat]
    rw [← asciiText, encode_asciiText fun d hd => h d (List.mem_cons_of_mem _ hd)]
    rfl

/-- How a control character is written, the three with a letter of their own apart. -/
theorem item_hexPieces {b : UInt8} (h : b.toNat ≤ 0x1f) :
    Item (bytes "\\u" :: hexPieces b).flatten (Char.ofNat b.toNat) := by
  have hall : ∀ n ≤ 0x1f, (bytes "\\u" :: hexPieces (UInt8.ofNat n)).flatten =
      [92, 117, 48, 48, UInt8.ofNat (48 + n / 16),
        UInt8.ofNat (if n % 16 < 10 then 48 + n % 16 else 87 + n % 16)] ∧
      HexDigit (UInt8.ofNat (48 + n / 16)) (n / 16) ∧
      HexDigit (UInt8.ofNat (if n % 16 < 10 then 48 + n % 16 else 87 + n % 16)) (n % 16) := by
    decide +kernel
  obtain ⟨hbytes, hhigh, hlow⟩ := hall b.toNat h
  rw [UInt8.ofNat_toNat] at hbytes
  have hzero : HexDigit 48 0 := by decide
  have hval : ((0 * 16 + 0) * 16 + b.toNat / 16) * 16 + b.toNat % 16 = b.toNat := by omega
  have hitem := Item.unit (.digits hzero hzero hhigh hlow) (Or.inl (by omega))
  rw [hval] at hitem
  rw [hbytes]
  exact hitem

/-- A byte of the output is written as the character of its number. -/
theorem item_jsonPieces (b : UInt8) : Item (jsonPieces b).flatten (Char.ofNat b.toNat) := by
  have hletter : ∀ {p : List UInt8} {l : UInt8} {c : Char}, p = [92, l] → (l, c) ∈ escapes →
      Item [p].flatten c := by
    intro p l c hp h
    rw [hp]
    exact .escape h
  have hlt := b.toNat_lt
  have hn : (Char.ofNat b.toNat).toNat = b.toNat := toNat_ofNat (Or.inl (by omega))
  unfold jsonPieces
  split
  · rename_i h
    subst h
    exact hletter (l := 34) (by decide) (by decide)
  rename_i hq
  split
  · rename_i h
    subst h
    exact hletter (l := 92) (by decide) (by decide)
  rename_i he
  split
  · rename_i h
    subst h
    exact hletter (l := 110) (by decide) (by decide)
  split
  · rename_i h
    subst h
    exact hletter (l := 114) (by decide) (by decide)
  split
  · rename_i h
    subst h
    exact hletter (l := 116) (by decide) (by decide)
  split
  · rename_i h
    exact item_hexPieces h
  · rename_i hctl
    rw [List.flatten_singleton]
    refine .plain (by omega) (fun h => hq ?_) (fun h => he ?_)
    · exact UInt8.toNat_inj.1 (hn.symm.trans (congrArg Char.toNat h))
    · exact UInt8.toNat_inj.1 (hn.symm.trans (congrArg Char.toNat h))

/-- **The quoted output is a literal**: of the characters whose numbers are the bytes. -/
theorem literal_jsonPieces (output : List UInt8) :
    Literal (output.flatMap jsonPieces).flatten (asciiText output) := by
  have hflat : (output.flatMap jsonPieces).flatten = output.flatMap fun b => (jsonPieces b).flatten := by
    simp only [List.flatMap, List.flatten_flatten, List.map_map]
    rfl
  rw [hflat]
  exact Literal.flatMap fun b _ => item_jsonPieces b

theorem sendHead_quote :
    sendHead ++ [34] = bytes "\x7b\"method\":\"RPC.Send\",\"params\":[\x7b\"Output\":\"" := by decide

theorem decodeSend_eq (msg : List UInt8) :
    decodeSend msg =
      if (sendHead ++ [34]).isPrefixOf msg then
        match unquote msg.length (msg.drop (sendHead ++ [34]).length) with
        | some (cs, rest) => if rest = sendTail then some (String.ofList cs) else none
        | none => none
      else none := by
  rw [sendHead_quote]
  rfl

theorem quotedOutput_cons (output : List UInt8) :
    quotedOutput output = 34 :: ((output.flatMap jsonPieces).flatten ++ [34]) := rfl

theorem fullMessage_split (output : List UInt8) :
    fullMessage output =
      (sendHead ++ [34]) ++ ((output.flatMap jsonPieces).flatten ++ 34 :: sendTail) := by
  rw [fullMessage, quotedOutput_cons]
  simp

theorem length_le_pieces (output : List UInt8) :
    output.length ≤ (output.flatMap jsonPieces).flatten.length := by
  have h := (literal_jsonPieces output).length_le
  rwa [asciiText, List.length_map] at h

/-- **A whole message delivers its output**, read as the characters whose numbers are its bytes. -/
theorem decodeSend_fullMessage (output : List UInt8) :
    decodeSend (fullMessage output) = some (String.ofList (asciiText output)) := by
  have hlen : (asciiText output).length < (fullMessage output).length := by
    have hpieces := length_le_pieces output
    rw [fullMessage_split, asciiText, List.length_map]
    simp only [List.length_append, List.length_cons]
    omega
  have hdrop : (fullMessage output).drop (sendHead ++ [34]).length =
      (output.flatMap jsonPieces).flatten ++ 34 :: sendTail := by
    rw [fullMessage_split, List.drop_left]
  rw [decodeSend_eq, if_pos (List.isPrefixOf_iff_prefix.2 ⟨_, (fullMessage_split output).symm⟩),
    hdrop, unquote_literal (literal_jsonPieces output) hlen]
  exact if_pos rfl

theorem body_pieces (output : List UInt8) : Body 34 92 (output.flatMap jsonPieces).flatten :=
  (literal_jsonPieces output).body

/-- **A message that is broken off delivers nothing**, wherever it is broken off. -/
theorem decodeSend_cut {output : List UInt8} (h : 1024 < (fullMessage output).length) :
    decodeSend (sendMessage output) = none := by
  obtain ⟨k, -, hsent⟩ := sendMessage_cut h
  rw [decodeSend_eq]
  split
  · rename_i hpre
    cases hu : unquote (sendMessage output).length
        ((sendMessage output).drop (sendHead ++ [34]).length) with
    | none => rfl
    | some p =>
      obtain ⟨cs, rest⟩ := p
      -- the closing quote that was read is the last byte of the quoted output
      obtain ⟨body, hsplit, hbody⟩ := unquote_closing hu
      have hdrop : (sendMessage output).drop (sendHead ++ [34]).length =
          ((output.flatMap jsonPieces).flatten ++ [34]).take (k - 1) := by
        rw [hsent, quotedOutput_cons, List.length_append, List.length_singleton,
          List.drop_length_add_append, List.drop_take, List.drop_one, List.tail_cons]
      rw [hdrop] at hsplit
      have hclose := closing_append (by decide)
        (((output.flatMap jsonPieces).flatten ++ [34]).drop (k - 1))
        (hsplit ▸ closing_body (by decide) rest hbody)
      rw [List.take_append_drop, closing_body (by decide) [] (body_pieces output),
        Option.some.injEq] at hclose
      have hrest : rest = [] := by
        have hlen := congrArg List.length hsplit
        simp only [List.length_take, List.length_append, List.length_cons, List.length_nil] at hlen
        exact List.length_eq_zero_iff.1 (by omega)
      simp only
      rw [hrest, if_neg (by decide)]
  · rfl

/-! ## The callers -/

section
variable {σ : Type}

/-- What the handler would put out for the call that is being served. -/
def outputOf (A : Applet σ) (s : State σ) : Option (List UInt8) :=
  s.busy.bind fun m => (A s.mem m.val).map Answer.output

/-- The handler's output is printable ASCII. -/
def PrintableOutput (A : Applet σ) (s : State σ) : Action → Prop
  | .send => ∀ out ∈ outputOf A s, Printable out
  | _ => True

/-- The whole `RPC.Send` message of the turn fits the 1024 bytes of `JsonBuf`. -/
def FitsJsonBuf (A : Applet σ) (s : State σ) : Action → Prop
  | .send => ∀ out ∈ outputOf A s, (fullMessage out).length ≤ 1024
  | _ => True

instance (A : Applet σ) (s : State σ) : ∀ a, Decidable (PrintableOutput A s a)
  | .send => Option.decidableForallMem (p := Printable) (outputOf A s)
  | .push _ | .recv | .take _ => .isTrue trivial

instance (A : Applet σ) (s : State σ) : ∀ a, Decidable (FitsJsonBuf A s a)
  | .send => Option.decidableForallMem (p := fun out => (fullMessage out).length ≤ 1024)
      (outputOf A s)
  | .push _ | .recv | .take _ => .isTrue trivial

theorem mem_outputOf {A : Applet σ} {s : State σ} {m : Tagged AppletCall} {a : Answer σ}
    (hb : s.busy = some m) (hA : A s.mem m.val = some a) : a.output ∈ outputOf A s := by
  rw [outputOf, hb, Option.bind_some, hA]
  rfl

variable {handler : Handler σ} {ack : Mem σ → AppletCall → List UInt8}

theorem serveApplet_eq_some {mem : Mem σ} {call : AppletCall} {a : Answer (Mem σ)}
    (h : serveApplet handler ack mem call = some a) :
    ∃ turn, serveTurn handler (recvResponse call) (ack mem call) mem = .ok turn ∧
      turn.output = a.output ∧ a.reply = decodeSend (sendMessage a.output) := by
  unfold serveApplet at h
  split at h
  · rename_i turn ht
    obtain ⟨-, -, -, -, -, hsent⟩ := serveTurn_eq_ok ht
    cases h
    exact ⟨turn, ht, rfl, congrArg decodeSend hsent⟩
  · cases h

/-- An output that fits is delivered. -/
theorem reply_of_fits {mem : Mem σ} {call : AppletCall} {a : Answer (Mem σ)}
    (h : serveApplet handler ack mem call = some a)
    (hf : (fullMessage a.output).length ≤ 1024) :
    a.reply = some (String.ofList (asciiText a.output)) := by
  obtain ⟨-, -, -, hreply⟩ := serveApplet_eq_some h
  rw [hreply, sendMessage_of_fits hf, decodeSend_fullMessage]

/-- Every reply that was sent is the output it was made from. -/
def TrueReplies (s : State σ) : Prop :=
  ∀ e ∈ s.served, ∀ r, e.reply = some r → bytes r = e.output

theorem step_trueReplies {calls : Nat → AppletCall} {s t : State (Mem σ)} (a : Action)
    (hs : TrueReplies s) (hp : PrintableOutput (serveApplet handler ack) s a)
    (hf : FitsJsonBuf (serveApplet handler ack) s a)
    (h : step (serveApplet handler ack) calls s a = some t) : TrueReplies t := by
  cases a with
  | push i => obtain ⟨-, ch, -, rfl⟩ := step_push h; exact hs
  | recv => obtain ⟨-, -, m, ch, -, rfl⟩ := step_recv h; exact hs
  | take i => obtain ⟨-, m, ch, -, rfl⟩ := step_take h; exact hs
  | send =>
    obtain ⟨-, m, hb, ⟨-, rfl⟩ | ⟨ans, ch, hA, -, rfl⟩⟩ := step_send h
    · exact hs
    · intro e he r hr
      simp only [List.mem_append, List.mem_singleton] at he
      rcases he with he | rfl
      · exact hs e he r hr
      · have hprint := hp _ (mem_outputOf hb hA)
        simp only at hr ⊢
        rw [reply_of_fits hA (hf _ (mem_outputOf hb hA)), Option.some.injEq] at hr
        rw [← hr, bytes, String.toList_ofList, encode_asciiText hprint]

/-- **Replies that fit go to their callers.** In every run, for every handler: if replies are taken
in order of arrival and every output is printable and its message fits `JsonBuf`, what each
`CallApplet` returned is the handler's output in the turn that served its own request. -/
theorem callApplet_output (calls : Nat → AppletCall) (m : Mem σ) (as : List Action)
    (s : State (Mem σ))
    (h : (appletLts (serveApplet handler ack) calls m).run (start m) as = some s)
    (hfifo : (appletLts (serveApplet handler ack) calls m).Meets OldestFirst (start m) as)
    (hprint : (appletLts (serveApplet handler ack) calls m).Meets
      (PrintableOutput (serveApplet handler ack)) (start m) as)
    (hfit : (appletLts (serveApplet handler ack) calls m).Meets
      (FitsJsonBuf (serveApplet handler ack)) (start m) as) :
    ∀ p ∈ s.returned, ∃ e ∈ s.served, e.owner = p.1 ∧ bytes p.2.val = e.output ∧
      ∃ mem turn, serveTurn handler (recvResponse (calls p.1)) (ack mem (calls p.1)) mem =
        .ok turn ∧ turn.output = e.output := by
  have hgood := hprint.and hfit
  have hrep : (appletLts (serveApplet handler ack) calls m).Meets
      (Replies (serveApplet handler ack)) (start m) as := by
    refine hgood.mono fun u a hg => ?_
    cases a with
    | send =>
      intro r ans hb hA
      rw [reply_of_fits hA (hg.2 _ (mem_outputOf hb hA))]
      rfl
    | push i => trivial
    | recv => trivial
    | take i => trivial
  have htrue : TrueReplies s :=
    Lts.run_inv_of_meets (P := TrueReplies) (fun _ a _ hs hg hst => step_trueReplies a hs hg.1 hg.2 hst)
      (by simp [TrueReplies, start]) hgood h
  intro p hp
  have hown := (fifo_run hfifo hrep h).own p hp
  obtain ⟨e, he, ho, hr⟩ := (run_queued h).returned p hp
  obtain ⟨mem, ans, hA, hout, -⟩ := (run_queued h).served e he
  obtain ⟨turn, ht, htout, -⟩ := serveApplet_eq_some hA
  rw [ho, hown] at ht
  exact ⟨e, he, ho.trans hown, htrue e he _ hr, mem, turn, ht, htout.trans hout⟩

end

theorem callApplet_output_echo :
    ∃ s, (appletLts (serveApplet handle fun _ _ => []) echoCalls (Mem.start ())).run
        (start (Mem.start ())) echoRun = some s ∧
      s.returned = [(0, ⟨0, "hi"⟩), (1, ⟨1, "there"⟩)] ∧
      ∀ p ∈ s.returned, ∃ e ∈ s.served, e.owner = p.1 ∧ bytes p.2.val = e.output ∧
        ∃ mem turn, serveTurn handle (recvResponse (echoCalls p.1)) [] mem = .ok turn ∧
          turn.output = e.output := by
  have hrun : ((appletLts (serveApplet handle fun _ _ => []) echoCalls
      (Mem.start ())).run (start (Mem.start ())) echoRun).map
      State.returned = some [(0, ⟨0, "hi"⟩), (1, ⟨1, "there"⟩)] := by decide +kernel
  obtain ⟨s, hs, hret⟩ := Option.map_eq_some_iff.1 hrun
  have hall := callApplet_output echoCalls (Mem.start ()) echoRun s hs (by decide +kernel)
    (by decide +kernel) (by decide +kernel)
  exact ⟨s, hs, hret, hall⟩

/-! ## A reply that is lost -/

/-- Two calls one after the other, the first of which gets no reply: its caller, still waiting,
takes the reply to the second. -/
theorem lost_reply {σ : Type} {A : Applet σ} (calls : Nat → AppletCall) {m m₁ m₂ : σ}
    {o₁ o₂ : List UInt8} {r : String} (h₀ : A m (calls 0) = some ⟨m₁, o₁, none⟩)
    (h₁ : A m₁ (calls 1) = some ⟨m₂, o₂, some r⟩) (hp₁ : Printable o₁) (hp₂ : Printable o₂) :
    ∃ s, (appletLts A calls m).run (start m)
        [.push 0, .recv, .send, .push 1, .recv, .send, .take 0] = some s ∧
      (appletLts A calls m).Meets OldestFirst (start m)
        [.push 0, .recv, .send, .push 1, .recv, .send, .take 0] ∧
      (appletLts A calls m).Meets (PrintableOutput A) (start m)
        [.push 0, .recv, .send, .push 1, .recv, .send, .take 0] ∧
      s.returned = [(0, ⟨1, r⟩)] ∧ s.served = [⟨0, o₁, none⟩, ⟨1, o₂, some r⟩] := by
  simp [Lts.run, Lts.Meets, appletLts, step, start, finish, Chan.send?, Chan.recv?, Chan.empty,
    OldestFirst, PrintableOutput, outputOf, h₀, h₁, hp₁, hp₂]

/-- `Echo` of the shipped applet, for an input that reaches it whole. -/
theorem serveApplet_echo (ack : Mem Unit → AppletCall → List UInt8) (mem : Mem Unit)
    {input : String} (hp : Plain input) (ha : Ascii input) (hlen : input.length ≤ 4000) :
    ∃ mem', serveApplet handle ack mem ⟨"Echo", input⟩ =
      some ⟨mem', bytes input, decodeSend (sendMessage (bytes input))⟩ := by
  have hecho : Plain "Echo" := by decide
  have hascii : Ascii "Echo" := by decide
  have hfit : (recvResponse ⟨"Echo", input⟩).length ≤ 4096 := by
    have h4 : "Echo".length = 4 := by decide
    rw [recvResponse_length hecho hascii hp ha]
    simp only [h4]
    omega
  have hinv := (serve_exact ⟨"Echo", input⟩ mem (Mem.start ()) [] (by simp) hecho hp hfit).1
  obtain ⟨turn, ht⟩ := serveTurn_handle (recvResponse ⟨"Echo", input⟩)
    (ack mem ⟨"Echo", input⟩) mem hinv
  have hreq := (serveTurn_invoked ht).symm.trans hinv
  rw [Option.some.injEq] at hreq
  obtain ⟨mem', turn', -, hdisp, hout, hsent⟩ := serveTurn_eq_ok ht
  have hwhole : (bytes input).length ≤ 4096 := by
    rw [bytes, encode_length_ascii ha, String.length_toList]
    omega
  have hturn := dispatch_echo (by rw [hreq]) hdisp
  rw [hout, hreq] at hturn
  simp only at hturn
  rw [List.take_of_length_le hwhole, bytes, fromUtf8OrEmpty_encode] at hturn
  refine ⟨turn.mem, ?_⟩
  unfold serveApplet
  rw [ht]
  simp only
  rw [hsent, hturn]
  rfl

/-- `Echo` of 980 letters, then `Echo` of one, one after the other. -/
theorem callApplet_shifted :
    ¬ ∀ (calls : Nat → AppletCall) (as : List Action) (s : State (Mem Unit)),
        (appletLts (serveApplet handle fun _ _ => []) calls (Mem.start ())).run
          (start (Mem.start ())) as = some s →
        (appletLts (serveApplet handle fun _ _ => []) calls (Mem.start ())).Meets OldestFirst
          (start (Mem.start ())) as →
        (appletLts (serveApplet handle fun _ _ => []) calls (Mem.start ())).Meets
          (PrintableOutput (serveApplet handle fun _ _ => [])) (start (Mem.start ())) as →
        ∀ p ∈ s.returned, ∃ e ∈ s.served, e.owner = p.1 ∧ bytes p.2.val = e.output := by
  intro hall
  obtain ⟨input, hp, ha, hlen, hbytes⟩ := exists_letters 980
  have hprint : Printable (bytes input) := by
    intro b hb
    rw [hbytes] at hb
    rw [List.eq_of_mem_replicate hb]
    decide
  obtain ⟨m₁, h₀⟩ := serveApplet_echo (fun _ _ => []) (Mem.start ()) hp ha (by omega)
  have hplain : Plain "b" := by decide
  obtain ⟨m₂, h₁⟩ := serveApplet_echo (fun _ _ => []) m₁ hplain (by decide) (by decide)
  have hlost : decodeSend (sendMessage (bytes input)) = none := by
    refine decodeSend_cut ?_
    have hpieces := length_le_pieces (bytes input)
    have hhead : sendHead.length = 41 := by decide
    have htail : sendTail.length = 10 := by decide
    rw [hbytes, List.length_replicate] at hpieces
    rw [hbytes, fullMessage_split]
    simp only [List.length_append, List.length_cons, List.length_nil, hhead, htail]
    omega
  have hb : decodeSend (sendMessage (bytes "b")) = some "b" := by decide +kernel
  rw [hlost] at h₀
  rw [hb] at h₁
  obtain ⟨s, hs, hfifo, hpr, hret, hserved⟩ :=
    lost_reply (fun i => if i = 0 then ⟨"Echo", input⟩ else ⟨"Echo", "b"⟩) h₀ h₁ hprint
      (by decide)
  obtain ⟨e, he, ho, hout⟩ := hall _ _ s hs hfifo hpr (0, ⟨1, "b"⟩) (by rw [hret]; simp)
  rw [hserved] at he
  simp only [List.mem_cons, List.not_mem_nil, or_false] at he
  rcases he with rfl | rfl
  · have hlong := congrArg List.length hout
    simp only [hbytes, List.length_replicate] at hlong
    exact absurd hlong (by decide)
  · exact absurd ho (by decide)

end SealedSky.TrustedOs
