import SealedSky.Lib.Base64
import SealedSky.TrustedOs.AppletStore
import SealedSky.TrustedOs.GoJson

/-!
# The bridge (`docker/trusted_os/bridge.go`)

One connection: a request is decoded, and either handed to `CallApplet` or, for `__upload`, written to
the SD card with a reset behind it. `stream` is all that the host sends before it closes its side.

* `decodeString_letters` — `base64.StdEncoding` reads back what is written with its alphabet.
* `decodeRequest_two` — a request object with both members is read as they spell.
* `handleBridgeConn_call`, `handleBridgeConn_upload` — the two ways of a connection.
* `handleBridgeConn_card` — the card changes by an accepted upload only, and only that resets.
-/
namespace SealedSky.TrustedOs

open Utf8 Scan JsonText

/-! ## `base64.StdEncoding.DecodeString` -/

/-- `enc.decodeMap`. -/
def decodeMap (b : UInt8) : Option Nat :=
  if 65 ≤ b.toNat ∧ b.toNat ≤ 90 then some (b.toNat - 65)
  else if 97 ≤ b.toNat ∧ b.toNat ≤ 122 then some (b.toNat - 71)
  else if 48 ≤ b.toNat ∧ b.toNat ≤ 57 then some (b.toNat + 4)
  else if b = 43 then some 62
  else if b = 47 then some 63
  else none

/-- Line breaks are skipped. -/
def isBreak (b : UInt8) : Bool := b == 10 || b == 13

/-- The last quantum, `si` bytes read: nothing but line breaks may follow its padding. -/
def finishQuantum (si : Nat) (quantum : List Nat) (r : List UInt8) : Except Nat (List UInt8) :=
  if r.dropWhile isBreak = [] then .ok (Base64.ofSextets quantum)
  else .error (si + (r.takeWhile isBreak).length)

/-- Behind the first padding character: after two groups there has to be a second one. -/
def padQuantum (si : Nat) (quantum : List Nat) (r : List UInt8) : Except Nat (List UInt8) :=
  if quantum.length < 2 then .error (si - 1)
  else if quantum.length = 2 then
    let si := si + (r.takeWhile isBreak).length
    match r.dropWhile isBreak with
    | [] => .error si
    | c :: r => if c ≠ 61 then .error (si - 1) else finishQuantum (si + 1) quantum r
  else finishQuantum si quantum r

/-- `decodeQuantum` over and over, `si` bytes read and the groups of a quantum at hand. The error is
the offset of the `CorruptInputError`. -/
def decodeQuanta : Nat → List Nat → List UInt8 → Except Nat (List UInt8)
  | si, quantum, [] => if quantum = [] then .ok [] else .error (si - quantum.length)
  | si, quantum, b :: r =>
    match decodeMap b with
    | some n =>
      if quantum.length = 3 then
        (decodeQuanta (si + 1) [] r).map fun bs => Base64.ofSextets (quantum ++ [n]) ++ bs
      else decodeQuanta (si + 1) (quantum ++ [n]) r
    | none =>
      if isBreak b then decodeQuanta (si + 1) quantum r
      else if b ≠ 61 then .error si
      else padQuantum (si + 1) quantum r

def decodeString (s : List UInt8) : Except Nat (List UInt8) := decodeQuanta 0 [] s

/-! ## Requests and replies -/

/-- A field name of a struct is found whatever the case of its letters. -/
def names (field key : String) : Bool := key.toList.map Char.toUpper = field.toList.map Char.toUpper

/-- A member stored in a string field: `null` leaves it, and any other value fails the decoding. -/
def storeString (old : String) : GoValue → Option String
  | .null => some old
  | .str s => some s
  | _ => none

/-- One member stored in a `bridgeRequest` (bridge.go:25). -/
def BridgeRequest.store (req : BridgeRequest) (m : String × GoValue) : Option BridgeRequest :=
  if names "Method" m.1 then (storeString req.method m.2).map fun s => { req with method := s }
  else if names "Input" m.1 then (storeString req.input m.2).map fun s => { req with input := s }
  else some req

/-- `dec.Decode(&req)` (bridge.go:57), `none` where it returns an error. -/
def decodeRequest (stream : List UInt8) : Option BridgeRequest :=
  (GoJson.readValue stream).bind fun p =>
    match p.1 with
    | .null => some ⟨"", ""⟩
    | .obj ms => ms.foldlM BridgeRequest.store ⟨"", ""⟩
    | _ => none

/-- bridge.go:30. An empty `Error` is left out. -/
structure BridgeReply where
  output : String
  error : String

def BridgeReply.errorText (r : BridgeReply) : List Char :=
  if r.error = "" then [] else ",\"Error\":".toList ++ goQuoted r.error

/-- The text of a reply. -/
def BridgeReply.text (r : BridgeReply) : List Char :=
  "\x7b\"Output\":".toList ++ (goQuoted r.output ++ (r.errorText ++ "\x7d".toList))

/-- `enc.Encode(r)`. -/
def encodeReply (r : BridgeReply) : List UInt8 := encode (r.text ++ ['\n'])

/-! ## A connection -/

/-- The Trusted OS as a connection finds it: the applet and the SD card. -/
structure Armory (σ : Type) where
  applet : σ
  sd : Option Sd

/-- What a connection leaves: the device, the bytes written to the host, and whether
`triggerReset` was called. -/
structure Handled (σ : Type) where
  armory : Armory σ
  written : List UInt8
  reset : Bool

variable {σ : Type}

/-- An upload that could be decoded (bridge.go:68). -/
def storeUpload (d : Armory σ) (elf : List UInt8) : Handled σ :=
  match writeAppletToSD d.sd elf with
  | (some e, sd) => ⟨{ d with sd }, encodeReply ⟨"", e⟩, false⟩
  | (none, sd) => ⟨{ d with sd }, encodeReply ⟨"ok, rebooting", ""⟩, true⟩

/-- `case "__upload"` (bridge.go:62). -/
def handleUpload (d : Armory σ) (input : String) : Handled σ :=
  match decodeString (bytes input) with
  | .error n =>
    ⟨d, encodeReply ⟨"", "base64: illegal base64 data at input byte " ++ toString n⟩, false⟩
  | .ok elf => storeUpload d elf

/-- `handleBridgeConn` (bridge.go:50), `none` where `CallApplet` never returns. -/
def handleBridgeConn (callApplet : σ → AppletCall → Option (σ × String)) (d : Armory σ)
    (stream : List UInt8) : Option (Handled σ) :=
  match decodeRequest stream with
  | none => some ⟨d, [], false⟩
  | some req =>
    match req.appletCall? with
    | none => some (handleUpload d req.input)
    | some call =>
      (callApplet d.applet call).map fun p =>
        ⟨{ d with applet := p.1 }, encodeReply ⟨p.2, ""⟩, false⟩

/-! ## What base64 writes is read back -/

section
variable {letter : Nat → UInt8} (hletter : ∀ n < 64, decodeMap (letter n) = some n)
include hletter

theorem decodeQuanta_letter (si : Nat) {quantum : List Nat} (hlen : quantum.length < 3) {n : Nat}
    (hn : n < 64) (r : List UInt8) :
    decodeQuanta si quantum (letter n :: r) = decodeQuanta (si + 1) (quantum ++ [n]) r := by
  rw [decodeQuanta, hletter n hn]
  simp only [if_neg (Nat.ne_of_lt hlen)]

theorem decodeQuanta_fourth (si : Nat) {quantum : List Nat} (hlen : quantum.length = 3) {n : Nat}
    (hn : n < 64) (r : List UInt8) :
    decodeQuanta si quantum (letter n :: r) =
      (decodeQuanta (si + 1) [] r).map fun bs => Base64.ofSextets (quantum ++ [n]) ++ bs := by
  rw [decodeQuanta, hletter n hn]
  simp only [if_pos hlen]

/-- **Bytes written in letters and padding are read back**, wherever they stand. -/
theorem decodeQuanta_sextets (bs : List UInt8) : ∀ si,
    decodeQuanta si [] ((Base64.sextets bs).map letter ++
      List.replicate ((4 - (Base64.sextets bs).length % 4) % 4) 61) = .ok bs := by
  have hlt := Base64.sextets_lt bs
  have hback := Base64.ofSextets_sextets bs
  fun_induction Base64.sextets bs with
  | case1 => exact fun si => rfl
  | case2 a =>
    intro si
    simp only [List.mem_cons, List.not_mem_nil, or_false, forall_eq_or_imp, forall_eq] at hlt
    simp only [List.map_cons, List.map_nil, List.cons_append, List.nil_append, List.length_cons,
      List.length_nil]
    rw [decodeQuanta_letter hletter si (by simp) hlt.1,
      decodeQuanta_letter hletter _ (by simp) hlt.2, ← hback]
    rfl
  | case3 a b =>
    intro si
    simp only [List.mem_cons, List.not_mem_nil, or_false, forall_eq_or_imp, forall_eq] at hlt
    simp only [List.map_cons, List.map_nil, List.cons_append, List.nil_append, List.length_cons,
      List.length_nil]
    rw [decodeQuanta_letter hletter si (by simp) hlt.1,
      decodeQuanta_letter hletter _ (by simp) hlt.2.1,
      decodeQuanta_letter hletter _ (by simp) hlt.2.2, ← hback]
    rfl
  | case4 a b c r ih =>
    intro si
    simp only [List.mem_cons, forall_eq_or_imp] at hlt
    obtain ⟨h1, h2, h3, h4, hr⟩ := hlt
    have hpad : (4 - (Base64.sextets r).length.succ.succ.succ.succ % 4) % 4 =
        (4 - (Base64.sextets r).length % 4) % 4 := by omega
    simp only [List.map_cons, List.cons_append, List.length_cons]
    rw [decodeQuanta_letter hletter si (by simp) h1,
      decodeQuanta_letter hletter _ (by simp) h2, decodeQuanta_letter hletter _ (by simp) h3,
      decodeQuanta_fourth hletter _ (by simp) h4, hpad,
      ih hr (Base64.ofSextets_sextets r) _]
    rw [Base64.ofSextets, Base64.ofSextets_sextets] at hback
    rw [← hback]
    rfl

end

/-! ## What a stream asks for -/

theorem spells_plain {s : String} (h : ∀ c ∈ s.toList, 0x20 ≤ c.toNat ∧ c ≠ '"' ∧ c ≠ '\\') :
    GoJson.Spells (bytes s) s := by
  have hs := GoJson.spells_literal (literal_encode h)
  rwa [String.ofList_toList, encode_toList] at hs

/-- **A request object is read as its members spell**, whatever is sent behind it. -/
theorem decodeRequest_two {method input : List UInt8} {m i : String}
    (hm : GoJson.Spells method m) (hi : GoJson.Spells input i) (r : List UInt8) :
    decodeRequest (123 :: 34 :: (bytes "Method" ++ 34 :: 58 :: 34 :: (method ++ 34 :: 44 :: 34 ::
      (bytes "Input" ++ 34 :: 58 :: 34 :: (input ++ 34 :: 125 :: r))))) = some ⟨m, i⟩ := by
  have hkey : GoJson.Spells (bytes "Method") "Method" := spells_plain (by decide)
  have hkey' : GoJson.Spells (bytes "Input") "Input" := spells_plain (by decide)
  have hread := GoJson.readValue_two hkey hm hkey' hi r
  rw [decodeRequest, hread]
  have hmethod : names "Method" "Method" = true := by decide
  have hinput : names "Method" "Input" = false ∧ names "Input" "Input" = true := by decide
  simp [BridgeRequest.store, storeString, hmethod, hinput]

/-- The ELF that a stream uploads. -/
def uploaded? (stream : List UInt8) : Option (List UInt8) :=
  (decodeRequest stream).bind fun req =>
    if req.appletCall?.isNone then (decodeString (bytes req.input)).toOption else none

section
variable {callApplet : σ → AppletCall → Option (σ × String)} {d : Armory σ} {stream : List UInt8}

theorem handleBridgeConn_call {req : BridgeRequest} {call : AppletCall}
    (hreq : decodeRequest stream = some req) (hcall : req.appletCall? = some call) :
    handleBridgeConn callApplet d stream = (callApplet d.applet call).map fun p =>
      ⟨{ d with applet := p.1 }, encodeReply ⟨p.2, ""⟩, false⟩ := by
  unfold handleBridgeConn
  simp only [hreq, hcall]

theorem handleBridgeConn_upload {req : BridgeRequest} (hreq : decodeRequest stream = some req)
    (hcall : req.appletCall? = none) :
    handleBridgeConn callApplet d stream = some (handleUpload d req.input) := by
  unfold handleBridgeConn
  simp only [hreq, hcall]

/-- **The card changes by uploads only**: a connection that gets an answer has written the card and
asked for a reset as `writeAppletToSD` says of the ELF it uploaded, or has done neither. -/
theorem handleBridgeConn_card {out : Handled σ} (h : handleBridgeConn callApplet d stream = some out) :
    match uploaded? stream with
    | some elf => out.armory = { d with sd := (writeAppletToSD d.sd elf).2 } ∧
        out.reset = (writeAppletToSD d.sd elf).1.isNone
    | none => out.armory.sd = d.sd ∧ out.reset = false := by
  unfold handleBridgeConn at h
  unfold uploaded?
  cases hreq : decodeRequest stream with
  | none =>
    rw [hreq] at h
    cases h
    exact ⟨rfl, rfl⟩
  | some req =>
    rw [hreq] at h
    cases hcall : req.appletCall? with
    | some call =>
      simp only [hcall] at h
      obtain ⟨p, -, rfl⟩ := Option.map_eq_some_iff.1 h
      simp [hcall]
    | none =>
      simp only [hcall, Option.some.injEq] at h
      subst h
      simp only [Option.bind_some, hcall, Option.isNone_none, if_true]
      unfold handleUpload
      cases hdec : decodeString (bytes req.input) with
      | error n => exact ⟨rfl, rfl⟩
      | ok elf =>
        simp only [Except.toOption, storeUpload]
        cases hw : writeAppletToSD d.sd elf with
        | mk e sd =>
          cases e with
          | none => exact ⟨rfl, rfl⟩
          | some e => exact ⟨rfl, rfl⟩

end

end SealedSky.TrustedOs
