import SealedSky.Host.CallApplet
import SealedSky.TrustedOs.Boot

/-!
# An upload from the host (`scripts/upload.ts`)

The ELF travels as base64 inside the request line. What the bridge writes to the card is the ELF. Unlike
`callApplet`, `upload.ts` does not parse the reply, which the reset may keep from it as well: it prints
the line, whatever it says.

* `handleBridgeConn_uploadLine` — the bridge uploads exactly the bytes of the file.
* `uploadReport_captured`, `uploadReport_nothing` — what `upload.ts` prints and exits with.
* `upload_delivered` — from the file to the next boot.
-/
namespace SealedSky.Host

open Js Utf8
open Backend (lowerUnit)
open TrustedOs (AppletCall Armory Handled Sd Startup handleBridgeConn writeAppletToSD
  readAppletFromSD)

/-- The line that `upload.ts` sends (upload.ts:17). -/
def uploadLine (elf : List UInt8) : JsString := requestLine (js "__upload") (btoa elf)

/-- A letter of the alphabet as a byte. -/
def b64Byte (n : ℕ) : UInt8 := UInt8.ofNat (b64Unit n).toNat

theorem b64Byte_plain : ∀ n < 64, TrustedOs.decodeMap (b64Byte n) = some n ∧
    (b64Byte n).toNat < 0x80 ∧ b64Unit n = UInt16.ofNat (b64Byte n).toNat := by decide

theorem utf8_btoa (elf : List UInt8) :
    utf8 (btoa elf) = (Base64.sextets elf).map b64Byte ++
      List.replicate ((4 - (Base64.sextets elf).length % 4) % 4) 61 := by
  have htext : btoa elf = asciiText ((Base64.sextets elf).map b64Byte ++
      List.replicate ((4 - (Base64.sextets elf).length % 4) % 4) 61) := by
    unfold btoa b64Units padding asciiText
    rw [List.map_append, List.map_map, List.map_replicate, List.length_map]
    congr 1
    refine List.map_congr_left fun n hn => ?_
    exact (b64Byte_plain n (Base64.sextets_lt elf n hn)).2.2
  rw [htext, utf8_asciiText]
  intro b hb
  rcases List.mem_append.1 hb with hb | hb
  · obtain ⟨n, hn, rfl⟩ := List.mem_map.1 hb
    exact (b64Byte_plain n (Base64.sextets_lt elf n hn)).2.1
  · rw [List.eq_of_mem_replicate hb]
    decide

/-- **The bridge decodes what the host encoded.** -/
theorem decodeString_btoa (elf : List UInt8) :
    TrustedOs.decodeString (bytes (String.ofList (toWellFormed (btoa elf)))) = .ok elf := by
  have hbytes : bytes (String.ofList (toWellFormed (btoa elf))) = utf8 (btoa elf) := by
    rw [← encode_toList, String.toList_ofList]
    rfl
  rw [hbytes, utf8_btoa]
  exact TrustedOs.decodeQuanta_sextets (fun n hn => (b64Byte_plain n hn).1) elf 0

variable {σ : Type}

/-- **The bridge stores exactly the bytes of the file.** -/
theorem handleBridgeConn_uploadLine (callApplet : σ → AppletCall → Option (σ × String))
    (d : Armory σ) (elf : List UInt8) :
    handleBridgeConn callApplet d (utf8 (uploadLine elf)) = some (TrustedOs.storeUpload d elf) := by
  have hmethod : String.ofList (toWellFormed (js "__upload")) = "__upload" := by decide
  have hreq := decodeRequest_requestLine (js "__upload") (btoa elf)
  rw [hmethod] at hreq
  rw [uploadLine, TrustedOs.handleBridgeConn_upload hreq (if_pos rfl), TrustedOs.handleUpload]
  simp only [decodeString_btoa]

/-- Every error of the store says whose it is. -/
theorem writeAppletToSD_error {sd sd' : Option Sd} {elf : List UInt8} {e : String}
    (h : writeAppletToSD sd elf = (some e, sd')) : ∃ text, e = "applet: " ++ text := by
  unfold writeAppletToSD at h
  cases hv : TrustedOs.validateApplet elf with
  | some e' =>
    rw [hv] at h
    obtain ⟨he, -⟩ := Prod.mk.inj h
    rw [Option.some.injEq] at he
    subst he
    unfold TrustedOs.validateApplet at hv
    split_ifs at hv with h1 h2 h3 h4 h5
    · exact ⟨"too small to be ELF", (Option.some.inj hv).symm⟩
    · exact ⟨"missing ELF magic", (Option.some.inj hv).symm⟩
    · exact ⟨"not ELFCLASS32", (Option.some.inj hv).symm⟩
    · exact ⟨"not EM_ARM", (Option.some.inj hv).symm⟩
    · rw [← Option.some.inj hv, String.append_assoc, String.append_assoc]
      exact ⟨_, rfl⟩
  | none =>
    rw [hv] at h
    cases sd with
    | none =>
      obtain ⟨he, -⟩ := Prod.mk.inj h
      exact ⟨"no SD controller on this board", (Option.some.inj he).symm⟩
    | some s =>
      simp only at h
      split at h
      · rename_i d _
        obtain ⟨he, -⟩ := Prod.mk.inj h
        exact ⟨"SD detect failed: " ++ d, (Option.some.inj he).symm⟩
      · split at h
        · obtain ⟨he, -⟩ := Prod.mk.inj h
          exact ⟨"unexpected SD block size " ++ toString s.blockSize, (Option.some.inj he).symm⟩
        · obtain ⟨he, -⟩ := Prod.mk.inj h
          unfold TrustedOs.writeBlocks at he
          split at he
          · rename_i w _ _
            exact ⟨"SD body write: " ++ w, (Option.some.inj he).symm⟩
          · split at he
            · rename_i w _ _
              exact ⟨"SD header write: " ++ w, (Option.some.inj he).symm⟩
            · cases he

/-! ## What the host is shown -/

/-- `/refused|unreachable|no route|name or service/i.test(stderr)` (upload.ts:42). -/
def connFailed (stderr : JsString) : Bool :=
  [js "refused", js "unreachable", js "no route", js "name or service"].any fun word =>
    decide (word <:+: stderr.map lowerUnit)

/-- What `upload.ts` exits with, and the lines it prints. -/
structure Report where
  exit : ℕ
  log : List JsString
  error : List JsString
  deriving DecidableEq

/-- The lines of upload.ts:52, where nothing was captured. -/
def probably (exit : ℤ) : List JsString :=
  [js "ok, probably rebooting (no reply captured; nc exited " ++ printInt exit ++ js ")",
    js "  verify in ~8s after re-running ./scripts/armory-link.sh:",
    js "    printf '\x7b\"Method\":\"__probe\",\"Input\":\"\"\x7d\\n' | nc -w 2 10.0.0.1 4000",
    js "  any reply (even \x7b\"Output\":\"\"\x7d) means the device is back up."]

/-- `upload.ts` behind the exit of `nc` (upload.ts:42). The reply is not parsed. -/
def uploadReport (nc : Nc) : Report :=
  let stderr := textDecode nc.stderr
  let reply := trim (textDecode nc.stdout)
  if connFailed stderr then ⟨1, [], [js "upload failed: " ++ trim stderr]⟩
  else if reply ≠ [] then ⟨0, [reply], []⟩
  else ⟨0, probably nc.exit, []⟩

/-- The line of a reply. -/
def replyLine (r : TrustedOs.BridgeReply) : JsString := r.text.flatMap units

/-- A line break behind a text that ends with something else is all that is trimmed. -/
theorem trim_line {u v : UInt16} (s : JsString) (hu : isSpace u = false) (hv : isSpace v = false) :
    trim (u :: (s ++ [v]) ++ [10]) = u :: (s ++ [v]) := by
  have hbreak : isSpace 10 = true := by decide
  have hfront : (u :: (s ++ [v]) ++ [10]).dropWhile isSpace = u :: (s ++ [v]) ++ [10] := by
    rw [List.cons_append]
    exact List.dropWhile_cons_of_neg (by simp [hu])
  rw [trim, hfront, List.rdropWhile_concat_pos _ _ _ hbreak, ← List.cons_append,
    List.rdropWhile_concat_neg _ _ _ (by simp [hv])]

/-- What `upload.ts` takes from a reply is its line. -/
theorem trim_encodeReply (r : TrustedOs.BridgeReply) :
    trim (textDecode (TrustedOs.encodeReply r)) = replyLine r ∧ replyLine r ≠ [] := by
  have hhead : "\x7b\"Output\":".toList.flatMap units = 123 :: js "\"Output\":" := by decide
  have htail : "\x7d".toList.flatMap units = [125] := by decide
  obtain ⟨body, hbody⟩ : ∃ body, replyLine r = 123 :: (body ++ [125]) := by
    refine ⟨js "\"Output\":" ++ ((TrustedOs.goQuoted r.output).flatMap units ++
      r.errorText.flatMap units), ?_⟩
    unfold replyLine TrustedOs.BridgeReply.text
    simp only [List.flatMap_append, hhead, htail, List.cons_append, List.append_assoc]
  refine ⟨?_, by simp [hbody]⟩
  rw [(firstLine_encodeReply r).1, ← replyLine, hbody]
  exact trim_line body (by decide) (by decide)

/-- The reply as it is printed, where it was captured. -/
theorem uploadReport_captured {nc : Nc} {r : TrustedOs.BridgeReply}
    (hconn : connFailed (textDecode nc.stderr) = false)
    (hstdout : nc.stdout = TrustedOs.encodeReply r) : uploadReport nc = ⟨0, [replyLine r], []⟩ := by
  obtain ⟨htrim, hne⟩ := trim_encodeReply r
  rw [← hstdout] at htrim
  unfold uploadReport
  simp only [hconn, Bool.false_eq_true, if_false, htrim, ne_eq, hne, not_false_eq_true, if_true]

theorem uploadReport_nothing {nc : Nc} (hconn : connFailed (textDecode nc.stderr) = false)
    (hstdout : nc.stdout = []) : uploadReport nc = ⟨0, probably nc.exit, []⟩ := by
  have htrim : trim (textDecode []) = [] := by decide
  unfold uploadReport
  simp only [hconn, Bool.false_eq_true, if_false, hstdout, htrim, ne_eq, not_true_eq_false]

/-- A line shows whether it is of an error. -/
theorem replyLine_ne {e : String} (he : e ≠ "") (out : String) :
    replyLine ⟨"", e⟩ ≠ replyLine ⟨out, ""⟩ := by
  intro h
  have hparse := congrArg parse h
  rw [replyLine, replyLine, parse_text, parse_text, Option.some.injEq, JsValue.obj.injEq] at hparse
  have hlen := congrArg List.length hparse
  simp [replyObject, he] at hlen

/-! ## From the file to the next boot -/

/-- The reply to an upload. -/
def uploadReply (err : Option String) : TrustedOs.BridgeReply :=
  match err with
  | some e => ⟨"", e⟩
  | none => ⟨"ok, rebooting", ""⟩

/-- What becomes of an upload: `err` is the error of the store, if it refused. -/
structure Delivered (d : Armory σ) (elf : List UInt8) (out : Handled σ) (err : Option String) :
    Prop where
  outcome : err = (writeAppletToSD d.sd elf).1
  /-- The running applet goes on as it was, and the card is what the store left. -/
  armory : out.armory = { d with sd := (writeAppletToSD d.sd elf).2 }
  reset : out.reset = err.isNone
  /-- `upload.ts` prints the reply where it captured it, an error too, and exits with 0. -/
  captured : ∀ nc, connFailed (textDecode nc.stderr) = false → nc.stdout = out.written →
    uploadReport nc = ⟨0, [replyLine (uploadReply err)], []⟩
  /-- It exits with 0 where nothing was captured as well, whatever became of the file. -/
  nothing : ∀ nc, connFailed (textDecode nc.stderr) = false → nc.stdout = [] →
    uploadReport nc = ⟨0, probably nc.exit, []⟩
  /-- The line tells whether the file was stored. -/
  told : replyLine (uploadReply err) = replyLine (uploadReply none) ↔ err = none
  /-- What was stored is there at any boot that can read the card. -/
  stored : err = none → ∀ env : Startup, TrustedOs.SameCard out.armory.sd env →
    TrustedOs.CardReadable env elf → readAppletFromSD env.sd = some elf

/-- **An upload is delivered.** Whatever the file, the card and the controller, the device is handed
exactly the file, and a line that `upload.ts` captures tells whether it was stored; what was stored is
what the next boot reads. -/
theorem upload_delivered (callApplet : σ → AppletCall → Option (σ × String)) (d : Armory σ)
    (elf : List UInt8) : ∃ out err,
      handleBridgeConn callApplet d (utf8 (uploadLine elf)) = some out ∧ Delivered d elf out err := by
  have hline := handleBridgeConn_uploadLine callApplet d elf
  have hstore : TrustedOs.storeUpload d elf = ⟨{ d with sd := (writeAppletToSD d.sd elf).2 },
      TrustedOs.encodeReply (uploadReply (writeAppletToSD d.sd elf).1),
      (writeAppletToSD d.sd elf).1.isNone⟩ := by
    unfold TrustedOs.storeUpload
    cases writeAppletToSD d.sd elf with
    | mk err sd =>
      cases err with
      | none => rfl
      | some e => rfl
  refine ⟨_, _, hline, rfl, by rw [hstore], by rw [hstore],
    fun nc hconn hstdout => uploadReport_captured hconn (by rw [hstdout, hstore]),
    fun nc hconn hstdout => uploadReport_nothing hconn hstdout, ?_, fun hstored env hsame hread => ?_⟩
  · cases hw : writeAppletToSD d.sd elf with
    | mk err sd =>
      cases err with
      | none => exact iff_of_true rfl rfl
      | some e =>
        obtain ⟨text, htext⟩ := writeAppletToSD_error hw
        have hne : e ≠ "" := by
          rintro rfl
          have hlist := congrArg String.toList htext
          rw [String.toList_append] at hlist
          cases hlist
        exact iff_of_false (replyLine_ne hne _) (by simp)
  · have hw : writeAppletToSD d.sd elf = (none, (writeAppletToSD d.sd elf).2) :=
      Prod.ext hstored rfl
    rw [hstore] at hsame
    exact TrustedOs.readAppletFromSD_after hw hsame hread

end SealedSky.Host
