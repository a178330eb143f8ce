import SealedSky.Backend.Server
import SealedSky.Js.IsJson
import SealedSky.Js.JsonCut
import SealedSky.Lib.Utf8Lossy

/-!
# The history file (`backend/server.js:77-107`)

`appendHistory` reads the file, puts the record at the end of the array and writes the array over the
file, all without an `await`. `readFileSync(…, "utf8")` replaces what is no UTF-8 and keeps a byte
order mark. A crash while the file is written leaves any start of the text.

* `readHistory_written`, `readHistory_cut` — reading back what was written, in whole or in part.
* `crashed_reads` — what is read after a crash.
* `run_recorded` — what the file holds after any interleaving of requests.
-/
namespace SealedSky.Backend

open Js Utf8

/-- The bytes of the file, where there is one. -/
abbrev File := Option (List UInt8)

def fileText (bs : List UInt8) : JsString := (decodeLossy bs).flatMap units

/-- server.js:89, `none` where `JSON.parse` throws. -/
def readHistory : File → Option (List JsValue)
  | none => some []
  | some bs => (parse (fileText bs)).map fun parsed =>
    match parsed with
    | .arr vs => vs
    | _ => []

/-- What `writeFileSync` writes for a history. -/
def historyBytes (history : List JsValue) : List UInt8 := utf8 (stringify 2 0 (.arr history))

/-- server.js:103: what the file is to hold, `none` where it throws. -/
def appendHistory (file : File) (record : JsValue) : Option (List UInt8) :=
  (readHistory file).map fun history => historyBytes (history ++ [record])

/-! ## Reading what was written -/

theorem fileText_utf8 {s : JsString} (h : WellFormed s) : fileText (utf8 s) = s := by
  rw [fileText, utf8, decodeLossy_encode, h.flatMap_units]

theorem readHistory_written (history : List JsValue) :
    readHistory (some (historyBytes history)) = some (elementsJson history) := by
  rw [readHistory, historyBytes, fileText_utf8 (wellFormed_stringify 2 0 _), parse_stringify, asJson]
  rfl

theorem units_ne_nil (c : Char) : units c ≠ [] := by
  unfold units
  split <;> simp

/-- **No part of a history is one**: what was cut off is refused, also inside a character. -/
theorem readHistory_cut {history : List JsValue} {p q : List UInt8}
    (h : historyBytes history = p ++ q) (hq : q ≠ []) : readHistory (some p) = none := by
  obtain ⟨ds, es, marks, hsplit, hdecode, hmarks, hes⟩ := decodeLossy_cut h
  have htext : stringify 2 0 (.arr history) = ds.flatMap units ++ es.flatMap units := by
    rw [← (wellFormed_stringify 2 0 (.arr history)).flatMap_units, hsplit, List.flatMap_append]
  have hrest : es.flatMap units ≠ [] := by
    intro hnil
    cases es with
    | nil => exact hq (hes rfl)
    | cons c es =>
      rw [List.flatMap_cons] at hnil
      exact units_ne_nil c (List.append_eq_nil_iff.1 hnil).1
  have hmark : ∀ u ∈ marks.flatMap units, u = 0xFFFD := by
    intro u hu
    obtain ⟨d, hd, hu⟩ := List.mem_flatMap.1 hu
    rw [hmarks d hd] at hu
    exact List.mem_singleton.1 hu
  rw [readHistory, fileText, hdecode, List.flatMap_append,
    parse_stringify_cut htext hrest hmark]
  rfl

theorem readHistory_append {file : File} {history : List JsValue} (record : JsValue)
    (h : readHistory file = some history) :
    ∃ bs, appendHistory file record = some bs ∧
      readHistory (some bs) = some (elementsJson history ++ [asJson record]) := by
  refine ⟨historyBytes (history ++ [record]), by rw [appendHistory, h]; rfl, ?_⟩
  rw [readHistory_written, elementsJson_append, elementsJson, elementsJson]

/-! ## A crash -/

/-- What a crash during `appendHistory` can leave of the file: all of it, as long as it has not been
truncated, and then any start of the new text. -/
inductive Crashed (file : File) (record : JsValue) : File → Prop where
  | untouched : Crashed file record file
  | writing {bs p : List UInt8} (hbs : appendHistory file record = some bs) (hp : p <+: bs) :
    Crashed file record (some p)

/-- **What is read after a crash**: the old history, the new one when its text was written in whole,
and otherwise nothing, as `readHistory` throws. -/
theorem crashed_reads {file left : File} {history : List JsValue} {record : JsValue}
    (h : readHistory file = some history) (hleft : Crashed file record left) :
    (left = file ∧ readHistory left = some history) ∨
      (left = appendHistory file record ∧
        readHistory left = some (elementsJson history ++ [asJson record])) ∨
      ((∃ bs p, appendHistory file record = some bs ∧ left = some p ∧ p <+: bs ∧ p ≠ bs) ∧
        readHistory left = none) := by
  cases hleft with
  | untouched => exact Or.inl ⟨rfl, h⟩
  | @writing bs p hbs hp =>
    obtain ⟨bs', hbs', hread⟩ := readHistory_append record h
    obtain rfl : bs = bs' := Option.some.inj (hbs.symm.trans hbs')
    by_cases heq : p = bs
    · subst heq
      exact Or.inr (Or.inl ⟨hbs.symm, hread⟩)
    · refine Or.inr (Or.inr ⟨⟨bs, p, hbs, rfl, hp, heq⟩, ?_⟩)
      obtain ⟨q, rfl⟩ := hp
      have hq : q ≠ [] := fun hnil => heq (by rw [hnil, List.append_nil])
      rw [appendHistory, h] at hbs
      exact readHistory_cut (Option.some.inj hbs) hq

/-- A record to append. -/
def rejection : JsValue := .obj [(js "status", .str (js "rejected"))]

/-- A file with two records. -/
def twoRecords : File :=
  some (historyBytes [.obj [(js "status", .str (js "accepted"))], rejection])

theorem readHistory_twoRecords : readHistory twoRecords =
    some (elementsJson [.obj [(js "status", .str (js "accepted"))], rejection]) :=
  readHistory_written _

/-- Thirty bytes of the new text are on the disk. -/
theorem crashed_reads_begun : ∃ bs, appendHistory twoRecords rejection = some bs ∧
    ((some (bs.take 30) = twoRecords ∧ readHistory (some (bs.take 30)) =
        some (elementsJson [.obj [(js "status", .str (js "accepted"))], rejection])) ∨
      (some (bs.take 30) = appendHistory twoRecords rejection ∧
        readHistory (some (bs.take 30)) = some (elementsJson
          (elementsJson [.obj [(js "status", .str (js "accepted"))], rejection]) ++
            [asJson rejection])) ∨
      ((∃ bs' p, appendHistory twoRecords rejection = some bs' ∧ some (bs.take 30) = some p ∧
        p <+: bs' ∧ p ≠ bs') ∧ readHistory (some (bs.take 30)) = none)) := by
  obtain ⟨bs, hbs, -⟩ := readHistory_append rejection readHistory_twoRecords
  exact ⟨bs, hbs, crashed_reads readHistory_twoRecords (.writing hbs (List.take_prefix 30 bs))⟩

theorem crashed_begun : Crashed (some (historyBytes [])) rejection (some []) := by
  obtain ⟨bs, hbs, -⟩ := readHistory_append rejection (readHistory_written [])
  exact .writing hbs List.nil_prefix

/-- The process dies when the file is truncated and nothing is written: every later request fails. -/
theorem truncated_refused :
    readHistory (some (historyBytes [])) = some [] ∧
      Crashed (some (historyBytes [])) rejection (some []) ∧ readHistory (some []) = none :=
  ⟨readHistory_written [], crashed_begun, rfl⟩

/-! ## Interleaved requests -/

def Status.toJson : Status → JsValue
  | .accepted => .str (js "accepted")
  | .rejected => .str (js "rejected")
  | .deviceSigned => .str (js "device_signed")

/-- The record as an object; `JSON.stringify` leaves out what is `undefined`. -/
def HistoryRecord.toJson (r : HistoryRecord) : JsValue :=
  let text (s : Option JsString) : JsValue := s.elim .undefined .str
  .obj [(js "receivedAt", .str r.receivedAt), (js "status", r.status.toJson),
    (js "stage", text r.stage), (js "reason", text r.reason), (js "note", text r.note),
    (js "error", text r.error), (js "details", text r.details), (js "raw", text r.raw),
    (js "sealedSkyText", .str r.sealedSkyText), (js "timestamp", r.timestamp),
    (js "imageHash", r.imageHash), (js "proof", r.proof), (js "payload", text r.payload),
    (js "payloadHash", text r.payloadHash), (js "tx", text r.tx),
    (js "canonicalPayload", text r.canonicalPayload), (js "legacyPayload", text r.legacyPayload)]

/-- The server and its history file. -/
structure Recorder where
  server : Server
  file : File

/-- The appends of an action throw where `readHistory` does, with the text of its error. -/
def diskOf (syntaxError : JsString) (file : File) : Outcome Unit :=
  match readHistory file with
  | some _ => .ok ()
  | none => .error syntaxError

def Action.withDisk (disk : Outcome Unit) : Action → Action
  | .submit id receivedAt body _ => .submit id receivedAt body disk
  | .submitInference id now tx _ => .submitInference id now tx disk
  | .wait id now receipt _ _ => .wait id now receipt disk disk
  | .signInference id receivedAt body nc _ => .signInference id receivedAt body nc disk

/-- The file after the appends of these records. -/
def appendAll : File → List HistoryRecord → File
  | file, [] => file
  | file, record :: records =>
    match appendHistory file record.toJson with
    | some bs => appendAll (some bs) records
    | none => appendAll file records

/-- A step of the server, with the file operations going through: in place of the disk outcome of the
action stands what the file itself gives, so its appends fail only where it cannot be read. -/
def Recorder.step (E : Ethers) (syntaxError : JsString) (r : Recorder) (a : Action) :
    Option Recorder :=
  (r.server.step E (a.withDisk (diskOf syntaxError r.file))).map fun server =>
    ⟨server, appendAll r.file
      ((server.history.drop r.server.history.length).map Prod.snd)⟩

def recorder (E : Ethers) (syntaxError : JsString) (file : File) : Lts Recorder Action :=
  ⟨⟨Server.init, file⟩, Recorder.step E syntaxError⟩

/-- What a step does to the logs, where the file can be read and written. -/
inductive Logged (s t : Server) : Prop where
  | same (hhistory : t.history = s.history) (hresponses : t.responses = s.responses)
    (hconfirmed : t.confirmed = s.confirmed)
  | threw {id} (hid : ¬ Settled s id) (hhistory : t.history = s.history)
    (hresponses : t.responses = s.responses ++ [(id, errorPage)])
    (hconfirmed : t.confirmed = s.confirmed)
  | recorded {id body} (record : HistoryRecord) (response : Response) (tx : Option JsString)
    (hid : ¬ Settled s id) (hbody : (id, some body) ∈ t.received) (habout : About body record)
    (hcode : response.code ≠ 500) (hstatus : record.status = .accepted ↔ tx.isSome)
    (hhistory : t.history = s.history ++ [(id, record)])
    (hresponses : t.responses = s.responses ++ [(id, response)])
    (hconfirmed : t.confirmed = s.confirmed ++ entry id tx)

section
variable {E : Ethers} {s t : Server}

theorem not_settled_of_waiting {id : ℕ} {w : Waiting} (h : (id, w) ∈ s.waiting) :
    ¬ Settled s id :=
  fun hsettled => hsettled.2 w h

theorem enter_logged {id : ℕ} {body : Option Body} {reached : Reached}
    (hid : id ∉ s.received.map Prod.fst)
    (hanswered : ∀ record response, reached = .answered record response →
      Answers body record response) :
    Logged s (s.enter id body reached (.ok ())) := by
  have hfresh : ¬ Settled s id := fun h => hid h.1
  cases reached with
  | threw => exact .threw hfresh rfl rfl rfl
  | calls p => exact .same rfl rfl rfl
  | answered record response =>
    obtain ⟨⟨b, rfl, habout⟩, hstatus, hcode⟩ := hanswered record response rfl
    have hreceived : (id, some b) ∈ s.received ++ [(id, some b)] := by simp
    exact .recorded record response none hfresh hreceived habout hcode (by simpa using hstatus)
      rfl rfl (append_entry_none _ id).symm

/-- The request of a handler that waits is the one it was called for. -/
theorem Inv.pending (hinv : Inv E s) {id : ℕ} {w : Waiting} (h : (id, w) ∈ s.waiting) :
    ∃ body, (id, some body) ∈ s.received ∧ Verified E body w.pending.call :=
  hinv.calls id w.pending.call (hinv.waiting id w h)

theorem chainFailed_logged (hinv : Inv E s) {id : ℕ} {w : Waiting} (hid : (id, w) ∈ s.waiting)
    (now msg : JsString) :
    Logged s ((s.resume id).chainFailed id w.pending now msg (.ok ())) := by
  obtain ⟨body, hbody, hverified⟩ := hinv.pending hid
  have habout : About body (failedRecord w.pending now msg) :=
    ⟨hverified.result, hverified.timestamp, hverified.imageHash⟩
  exact .recorded (failedRecord w.pending now msg) (failedResponse w.pending msg) none
    (not_settled_of_waiting hid) hbody habout (by simp [failedResponse]) (by simp [failedRecord])
    rfl rfl (append_entry_none _ id).symm

theorem chainConfirmed_logged (hinv : Inv E s) {id : ℕ} {p : Pending} {tx : JsString}
    (hid : (id, .wait p tx) ∈ s.waiting) (now : JsString) (diskInCatch : Outcome Unit) :
    Logged s ((s.resume id).chainConfirmed id p now tx (.ok ()) diskInCatch) := by
  obtain ⟨body, hbody, hverified⟩ := hinv.pending hid
  have habout : About body (acceptedRecord p tx) :=
    ⟨hverified.result, hverified.timestamp, hverified.imageHash⟩
  exact .recorded (acceptedRecord p tx) (acceptedResponse p tx) (some tx)
    (not_settled_of_waiting hid) hbody habout (by simp [acceptedResponse])
    (by simp [acceptedRecord]) rfl rfl rfl

theorem logged_of_step {a : Action} (hinv : Inv E s)
    (h : s.step E (a.withDisk (.ok ())) = some t) : Logged s t := by
  have hran := ran_of_step h
  cases a with
  | submit id receivedAt body disk =>
    cases hran with
    | submit hid => exact enter_logged hid fun _ _ => handleSubmit_answered
  | signInference id receivedAt body nc disk =>
    cases hran with
    | signInference hid => exact enter_logged hid fun _ _ => handleSign_answered
  | submitInference id now tx disk =>
    cases hran with
    | sent tx hid => exact .same rfl rfl rfl
    | notSent hid => exact chainFailed_logged hinv hid now _
  | wait id now receipt disk diskInCatch =>
    cases hran with
    | confirmed hid => exact chainConfirmed_logged hinv hid now (.ok ())
    | notConfirmed hid => exact chainFailed_logged hinv hid now _

end

/-- The records are those of the requests whose handler sent a response itself (an error page is
Express's), in the order of the responses, each about its request, and accepted exactly for a
confirmed transaction. -/
structure Audited (s : Server) : Prop where
  answered : s.history.map Prod.fst = (s.responses.filter fun e => e.2.code ≠ 500).map Prod.fst
  nodup : (s.responses.map Prod.fst).Nodup
  about : ∀ id record, (id, record) ∈ s.history →
    ∃ body, (id, some body) ∈ s.received ∧ About body record
  accepted : ∀ id record, (id, record) ∈ s.history →
    (record.status = .accepted ↔ id ∈ s.confirmed.map Prod.fst)
  confirmed : ∀ id tx, (id, tx) ∈ s.confirmed → id ∈ s.history.map Prod.fst

/-- What the file holds of the initial records: they are as they were until the first write. -/
def kept (initial : List JsValue) (s : Server) : List JsValue :=
  if s.history.isEmpty then initial else elementsJson initial

/-- The initial records and then those of the requests, as JSON reads them. -/
def recordsOf (initial : List JsValue) (s : Server) : List JsValue :=
  kept initial s ++ elementsJson (s.history.map fun e => e.2.toJson)

section
variable {E : Ethers} {s t : Server}

theorem Stepped.received_subset {a : Action} (h : Stepped E s a t) :
    ∀ e ∈ s.received, e ∈ t.received := by
  intro e he
  cases h with
  | entered => exact List.mem_append_left _ he
  | called => exact List.mem_append_left _ he
  | sent => exact he
  | failed => exact he
  | confirmed => exact he

theorem Quiet.fresh (hs : Quiet s) {id : ℕ} (hid : ¬ Settled s id) :
    id ∉ s.history.map Prod.fst ∧ id ∉ s.responses.map Prod.fst ∧
      id ∉ s.confirmed.map Prod.fst := by
  simp only [mem_fst_iff]
  exact ⟨fun ⟨r, hr⟩ => hid (hs.history id r hr), fun ⟨r, hr⟩ => hid (hs.responses id r hr),
    fun ⟨tx, htx⟩ => hid (hs.confirmed id tx htx)⟩

theorem nodup_log {α : Type} {l : List (ℕ × α)} {id : ℕ} (x : α) (h : (l.map Prod.fst).Nodup)
    (hid : id ∉ l.map Prod.fst) : ((l ++ [(id, x)]).map Prod.fst).Nodup := by
  rw [List.map_append]
  exact h.append (List.nodup_singleton id) (List.disjoint_singleton.2 hid)

theorem mem_fst_entry {α : Type} {l : List (ℕ × α)} {id i : ℕ} {x : Option α} :
    i ∈ (l ++ entry id x).map Prod.fst ↔ i ∈ l.map Prod.fst ∨ i = id ∧ x.isSome := by
  cases x <;> simp [entry]

theorem Logged.audited (h : Logged s t) (hquiet : Quiet s)
    (hreceived : ∀ e ∈ s.received, e ∈ t.received) (hs : Audited s) : Audited t := by
  obtain ⟨hanswered, hnodup, habout, haccepted, hconf⟩ := hs
  replace habout : ∀ id record, (id, record) ∈ s.history →
      ∃ body, (id, some body) ∈ t.received ∧ About body record := by
    intro id record hmem
    obtain ⟨body, hbody, h⟩ := habout id record hmem
    exact ⟨body, hreceived _ hbody, h⟩
  cases h with
  | same hhistory hresponses hconfirmed =>
    rw [← hhistory, ← hresponses] at hanswered
    rw [← hresponses] at hnodup
    rw [← hhistory] at habout
    rw [← hhistory, ← hconfirmed] at haccepted
    rw [← hhistory, ← hconfirmed] at hconf
    exact ⟨hanswered, hnodup, habout, haccepted, hconf⟩
  | @threw id hid hhistory hresponses hconfirmed =>
    refine ⟨?_, ?_, ?_, ?_, ?_⟩
    · rw [hhistory, hresponses, List.filter_append, hanswered]
      simp [errorPage]
    · rw [hresponses]
      exact nodup_log errorPage hnodup (hquiet.fresh hid).2.1
    · rwa [hhistory]
    · rwa [hhistory, hconfirmed]
    · rwa [hhistory, hconfirmed]
  | @recorded id body record response tx hid hbody hrecord hcode hstatus hhistory hresponses
      hconfirmed =>
    obtain ⟨hfresh, hunanswered, hunconfirmed⟩ := hquiet.fresh hid
    refine ⟨?_, ?_, ?_, ?_, ?_⟩
    · rw [hhistory, hresponses, List.filter_append, List.map_append, hanswered]
      simp [hcode]
    · rw [hresponses]
      exact nodup_log response hnodup hunanswered
    · intro i r hmem
      rw [hhistory] at hmem
      rcases mem_log.1 hmem with hmem | ⟨rfl, rfl⟩
      · exact habout i r hmem
      · exact ⟨body, hbody, hrecord⟩
    · intro i r hmem
      rw [hhistory] at hmem
      rw [hconfirmed, mem_fst_entry]
      rcases mem_log.1 hmem with hold | ⟨rfl, rfl⟩
      · have hne : i ≠ id := by
          rintro rfl
          exact hfresh (mem_fst_iff.2 ⟨r, hold⟩)
        simpa [hne] using haccepted i r hold
      · simpa [hunconfirmed] using hstatus
    · intro i tx' hmem
      rw [hconfirmed] at hmem
      rw [hhistory, List.map_append]
      rcases mem_log_entry.1 hmem with hmem | ⟨rfl, -⟩
      · exact List.mem_append_left _ (hconf i tx' hmem)
      · exact List.mem_append_right _ (List.mem_singleton_self _)

theorem elementsJson_kept (initial : List JsValue) (s : Server) :
    elementsJson (kept initial s) = elementsJson initial := by
  unfold kept
  split
  · rfl
  · exact elementsJson_elementsJson initial

/-- A step writes what it logs. -/
theorem Logged.file (h : Logged s t) {initial : List JsValue} {file : File}
    (hfile : readHistory file = some (recordsOf initial s)) :
    readHistory (appendAll file ((t.history.drop s.history.length).map Prod.snd)) =
      some (recordsOf initial t) := by
  have hsame : t.history = s.history →
      readHistory (appendAll file ((t.history.drop s.history.length).map Prod.snd)) =
        some (recordsOf initial t) := by
    intro heq
    rw [heq, List.drop_length, recordsOf, kept, heq]
    exact hfile
  cases h with
  | same hhistory => exact hsame hhistory
  | threw _ hhistory => exact hsame hhistory
  | @recorded id body record response tx _ _ _ _ _ hhistory =>
    obtain ⟨bs, hbs, hread⟩ := readHistory_append record.toJson hfile
    have hdrop : (t.history.drop s.history.length).map Prod.snd = [record] := by
      rw [hhistory, List.drop_left]
      rfl
    have hne : t.history.isEmpty = false := by
      rw [hhistory]
      simp
    rw [hdrop, appendAll, hbs]
    change readHistory (some bs) = _
    rw [hread, recordsOf, recordsOf, elementsJson_append, elementsJson_kept,
      elementsJson_elementsJson, kept, hne, hhistory, List.map_append, elementsJson_append,
      List.append_assoc]
    rfl

theorem audited_init : Audited Server.init := by
  refine ⟨rfl, List.nodup_nil, ?_, ?_, ?_⟩
  all_goals
    intro id x h
    cases h

/-- Everything that a step keeps. -/
structure Recording (E : Ethers) (initial : List JsValue) (r : Recorder) : Prop where
  inv : Inv E r.server
  quiet : Quiet r.server
  audited : Audited r.server
  file : readHistory r.file = some (recordsOf initial r.server)

variable {syntaxError : JsString} {initial : List JsValue} {r r' : Recorder}

theorem step_recording {a : Action} (h : Recording E initial r)
    (hstep : r.step E syntaxError a = some r') : Recording E initial r' := by
  obtain ⟨server, hserver, rfl⟩ := Option.map_eq_some_iff.1 hstep
  have hdisk : diskOf syntaxError r.file = .ok () := by
    rw [diskOf, h.file]
  rw [hdisk] at hserver
  have hstepped := step_cases hserver
  have hlogged := logged_of_step h.inv hserver
  exact ⟨hstepped.inv h.inv, hstepped.quiet h.quiet,
    hlogged.audited h.quiet hstepped.received_subset h.audited, hlogged.file h.file⟩

theorem recording_init {bs : List UInt8} (hinitial : parse (fileText bs) = some (.arr initial)) :
    Recording E initial ⟨Server.init, some bs⟩ := by
  refine ⟨inv_init E, quiet_init, audited_init, ?_⟩
  rw [readHistory, hinitial, recordsOf]
  exact congrArg some (List.append_nil initial).symm

theorem run_recording {file : File} {as : List Action} (h : Recording E initial r)
    (hrun : (recorder E syntaxError file).run r as = some r') : Recording E initial r' :=
  Lts.run_inv (S := recorder E syntaxError file) (fun _ _ _ => step_recording) h hrun

/-- The server on a file takes the steps of the server whose file operations go through. -/
theorem run_of_server (syntaxError : JsString) (file : File) {as : List Action}
    (h : Recording E initial r)
    (hrun : (server E).run r.server (as.map (Action.withDisk (.ok ()))) = some s) :
    ∃ r', (recorder E syntaxError file).run r as = some r' ∧ r'.server = s := by
  induction as generalizing r with
  | nil => exact ⟨r, rfl, Option.some.inj hrun⟩
  | cons a as ih =>
    obtain ⟨m, hm, hrun⟩ := (Lts.run_cons _).1 hrun
    have hdisk : diskOf syntaxError r.file = .ok () := by
      rw [diskOf, h.file]
    have hstep : ∃ r₁, r.step E syntaxError a = some r₁ ∧ r₁.server = m := by
      unfold Recorder.step
      rw [hdisk]
      exact ⟨_, Option.map_eq_some_iff.2 ⟨m, hm, rfl⟩, rfl⟩
    obtain ⟨r₁, hr₁, rfl⟩ := hstep
    obtain ⟨r', hrun', hr'⟩ := ih (step_recording h hr₁) hrun
    exact ⟨r', (Lts.run_cons _).2 ⟨r₁, hr₁, hrun'⟩, hr'⟩

/-- **The file holds the initial records, and one for each request that a handler answered**, after any
interleaving. The initial ones are unchanged where none of their numbers is beyond the doubles. -/
theorem run_recorded {bs : List UInt8} (hinitial : parse (fileText bs) = some (.arr initial))
    {as : List Action}
    (hrun : (recorder E syntaxError (some bs)).run ⟨Server.init, some bs⟩ as = some r) :
    Audited r.server ∧ readHistory r.file = some (recordsOf initial r.server) ∧
      (ElementsAreFinite initial → readHistory r.file =
        some (initial ++ elementsJson (r.server.history.map fun e => e.2.toJson))) := by
  have hend : Recording E initial r := run_recording (recording_init hinitial) hrun
  refine ⟨hend.audited, hend.file, fun hfinite => ?_⟩
  have hkept : kept initial r.server = initial := by
    unfold kept
    split
    · rfl
    · exact elementsJson_eq_self initial (isJson_parse hinitial) hfinite
  rw [hend.file, recordsOf, hkept]

end

theorem parse_historyBytes (history : List JsValue) :
    parse (fileText (historyBytes history)) = some (.arr (elementsJson history)) := by
  rw [historyBytes, fileText_utf8 (wellFormed_stringify 2 0 _), parse_stringify, asJson]

theorem run_recorded_submission : ∃ r,
    (recorder ethersOf [] (some (historyBytes [rejection]))).run
        ⟨Server.init, some (historyBytes [rejection])⟩ (submission (.ok ()) (.ok ())) = some r ∧
      0 ∈ r.server.confirmed.map Prod.fst ∧ Audited r.server ∧
      readHistory r.file = some (recordsOf (elementsJson [rejection]) r.server) ∧
      (ElementsAreFinite (elementsJson [rejection]) → readHistory r.file =
        some (elementsJson [rejection] ++
          elementsJson (r.server.history.map fun e => e.2.toJson))) := by
  have hinitial := parse_historyBytes [rejection]
  have hsubmission : (submission (.ok ()) (.ok ())).map (Action.withDisk (.ok ())) =
      submission (.ok ()) (.ok ()) := rfl
  obtain ⟨r, hrun, hserver⟩ := run_of_server [] (some (historyBytes [rejection]))
    (recording_init hinitial) (hsubmission ▸ run_submission (.ok ()) (.ok ()))
  refine ⟨r, hrun, ?_, run_recorded hinitial hrun⟩
  rw [hserver]
  exact List.mem_singleton_self 0

/-- `[1e999]` as it is read. -/
def overflows : JsValue → Bool
  | .arr [.num (.infinity false)] => true
  | _ => false

theorem parse_overflow :
    parse (fileText (utf8 (js "[1e999]"))) = some (.arr [.num (.infinity false)]) := by
  have hread : (parse (fileText (utf8 (js "[1e999]")))).any overflows = true := by decide +kernel
  obtain ⟨v, hv, hoverflows⟩ := (Option.any_eq_true _ _).1 hread
  unfold overflows at hoverflows
  split at hoverflows
  · exact hv
  · cases hoverflows

/-- A request without an `imageHash`. -/
def hashless : Action :=
  .signInference 0 (js "2026-05-09T12:00:00.000Z")
    (some { form "a" "1" "b" with imageHash := .undefined }) ⟨none, none, none⟩ (.ok ())

/-- A number beyond the doubles is `null` as soon as a request is recorded. -/
theorem overflow_rewritten : ∃ r,
    parse (fileText (utf8 (js "[1e999]"))) = some (.arr [.num (.infinity false)]) ∧
      (recorder ethersOf [] (some (utf8 (js "[1e999]")))).run
        ⟨Server.init, some (utf8 (js "[1e999]"))⟩ [hashless] = some r ∧
      r.server.history.map Prod.fst = [0] ∧
      ∀ records, readHistory r.file ≠ some ([.num (.infinity false)] ++ records) := by
  obtain ⟨s, hs, hids⟩ : ∃ s, (server ethersOf).run Server.init
      ([hashless].map (Action.withDisk (.ok ()))) = some s ∧ s.history.map Prod.fst = [0] :=
    ⟨_, rfl, rfl⟩
  obtain ⟨r, hrun, rfl⟩ := run_of_server [] (some (utf8 (js "[1e999]")))
    (recording_init parse_overflow) hs
  refine ⟨r, parse_overflow, hrun, hids, fun records hread => ?_⟩
  have hne : r.server.history.isEmpty = false := by
    cases h : r.server.history with
    | nil => simp [h] at hids
    | cons e es => rfl
  rw [(run_recording (recording_init parse_overflow) hrun).file, recordsOf, kept, hne] at hread
  cases hread

end SealedSky.Backend
