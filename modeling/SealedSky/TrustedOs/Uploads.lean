import SealedSky.TrustedOs.PowerLoss

/-!
# Uploads at the same time (`docker/trusted_os/bridge.go`, `applet_store.go`)

Every `__upload` connection has a goroutine of its own, which writes the body, writes the header,
replies and resets the platform. No lock spans the two writes, so the header of one upload can come
to stand before the body of another, and a reset then finds no applet at all. Each write is one step
here, and a run is any interleaving of the handlers; a reset ends it.

* `run_whole` — in the runs whose replies find the last body and the last header of one applet, and
  that write no other applet after the first reply, every reset after a reply finds an applet whole.
* `uploads_mixed` — two uploads that overlap leave nothing to be read.
-/
namespace SealedSky.TrustedOs

open BlockDev Crc32

/-- How far a handler has come. -/
inductive Stage where
  | received
  | bodyWritten
  | headerWritten
  | replied
  deriving DecidableEq

structure Bridge where
  device : Device appletBlockSize
  stage : Nat → Stage
  /-- The handlers that have replied `ok, rebooting`. -/
  replied : List Nat
  /-- The platform has been reset. -/
  down : Bool
  /-- History: the applet whose body was written last, and the one whose header was. -/
  body : Option (List UInt8)
  header : Option (List UInt8)

inductive UploadAct where
  /-- `sd.WriteBlocks(appletBodyLBA, body)` by handler `i` (applet_store.go:128). -/
  | body (i : Nat)
  /-- `sd.WriteBlocks(appletHeaderLBA, hdr)` (applet_store.go:131). -/
  | header (i : Nat)
  /-- `enc.Encode(bridgeReply{Output: "ok, rebooting"})` (bridge.go:72). -/
  | reply (i : Nat)
  /-- `triggerReset()` (bridge.go:75). -/
  | reset (i : Nat)
  deriving DecidableEq

def Bridge.move (b : Bridge) (i : Nat) (stage : Stage) : Nat → Stage :=
  fun j => if j = i then stage else b.stage j

/-- A step of a handler; `elfs i` is what connection `i` uploads. -/
def uploadStep (elfs : Nat → List UInt8) (b : Bridge) : UploadAct → Option Bridge
  | .body i =>
    if b.down = false ∧ b.stage i = .received then some { b with
      device := writeBody b.device (elfs i), stage := b.move i .bodyWritten, body := some (elfs i) }
    else none
  | .header i =>
    if b.down = false ∧ b.stage i = .bodyWritten then some { b with
      device := writeHeader b.device (elfs i), stage := b.move i .headerWritten
      header := some (elfs i) }
    else none
  | .reply i =>
    if b.down = false ∧ b.stage i = .headerWritten then some { b with
      stage := b.move i .replied, replied := i :: b.replied }
    else none
  | .reset i =>
    if b.down = false ∧ b.stage i = .replied then some { b with down := true } else none

/-- The handlers have decoded their uploads, and the card holds whatever it holds. -/
def receiving (device : Device appletBlockSize) : Bridge :=
  ⟨device, fun _ => .received, [], false, none, none⟩

def uploadLts (elfs : Nat → List UInt8) (device : Device appletBlockSize) :
    Lts Bridge UploadAct := ⟨receiving device, uploadStep elfs⟩

/-- A reset finds the applet of one of the uploads, whole. -/
def FindsApplet (elfs : Nat → List UInt8) (b : Bridge) : Prop :=
  ∃ i, b.stage i ≠ .received ∧ readAppletFromSD (some (card b.device)) = some (elfs i)

/-- A reply is given when the last body and the last header are of one applet; once one has been
given, no body and no header of another applet is written. -/
def Orderly (elfs : Nat → List UInt8) (b : Bridge) : UploadAct → Prop
  | .body i => b.replied = [] ∨ b.header = some (elfs i)
  | .header i => b.replied = [] ∨ b.body = some (elfs i)
  | .reply _ => b.body = b.header
  | .reset _ => True

instance (elfs : Nat → List UInt8) (b : Bridge) : ∀ a, Decidable (Orderly elfs b a)
  | .body i => inferInstanceAs (Decidable (b.replied = [] ∨ b.header = some (elfs i)))
  | .header i => inferInstanceAs (Decidable (b.replied = [] ∨ b.body = some (elfs i)))
  | .reply _ => inferInstanceAs (Decidable (b.body = b.header))
  | .reset _ => .isTrue trivial

section
variable {elfs : Nat → List UInt8} {b b' : Bridge} {device : Device appletBlockSize}

/-! ## What the two writes do to a card -/

/-- The body of an applet is on the card. -/
def HasBody (device : Device appletBlockSize) (elf : List UInt8) : Prop :=
  ∀ i, ∀ v ∈ bodyBlock elf i, device (appletBodyLBA + i) = v

theorem hasBody_writeBody (device : Device appletBlockSize) (elf : List UInt8) :
    HasBody (writeBody device elf) elf := by
  intro i v hv
  obtain ⟨hi, rfl⟩ := List.getElem?_eq_some_iff.1 hv
  exact write_ok (write_fst fun _ => rfl) i hi

theorem writeBody_header (device : Device appletBlockSize) (elf : List UInt8) :
    writeBody device elf appletHeaderLBA = device appletHeaderLBA :=
  write_frame (Or.inl (by rw [appletBodyLBA]; omega))

theorem HasBody.writeHeader {elf : List UInt8} (h : HasBody device elf) (elf' : List UInt8) :
    HasBody (writeHeader device elf') elf := by
  intro i v hv
  rw [writeHeader_eq, set_other (by rw [appletBodyLBA]; omega)]
  exact h i v hv

theorem holds_of_hasBody {elf : List UInt8} (hheader : device appletHeaderLBA = headerBlock elf)
    (hbody : HasBody device elf) : Holds device elf := by
  refine ⟨fun i hi => ?_, fun i hi => ?_⟩
  · rw [blocksOf_length] at hi
    obtain rfl : i = 0 := by omega
    exact hheader
  · exact hbody i _ (List.getElem?_eq_getElem hi)

/-- **A card with the header and the body of one applet is read.** -/
theorem readAppletFromSD_of_hasBody {elf : List UInt8} (hv : validateApplet elf = none)
    (hheader : device appletHeaderLBA = headerBlock elf) (hbody : HasBody device elf) :
    readAppletFromSD (some (card device)) = some elf :=
  readAppletFromSD_of_written hv (holds_of_hasBody hheader hbody) (readable_card device elf)

/-! ## Every run -/

structure Whole (elfs : Nat → List UInt8) (b : Bridge) : Prop where
  body : ∀ elf ∈ b.body, HasBody b.device elf
  header : ∀ elf ∈ b.header,
    b.device appletHeaderLBA = headerBlock elf ∧ ∃ i, b.stage i ≠ .received ∧ elf = elfs i
  written : ∀ i, b.stage i = .headerWritten → b.header.isSome
  same : b.replied ≠ [] → b.header.isSome ∧ b.body = b.header

theorem whole_receiving (elfs : Nat → List UInt8) (device : Device appletBlockSize) :
    Whole elfs (receiving device) := by
  constructor <;> simp [receiving]

theorem move_ne_received {i j : Nat} {stage : Stage} (h : b.stage j ≠ .received)
    (hs : stage ≠ .received) : b.move i stage j ≠ .received := by
  unfold Bridge.move
  split
  · exact hs
  · exact h

theorem step_whole (a : UploadAct) (hb : Whole elfs b) (hg : Orderly elfs b a)
    (h : uploadStep elfs b a = some b') : Whole elfs b' := by
  cases a with
  | body i =>
    simp only [uploadStep] at h
    split_ifs at h
    cases h
    refine ⟨?_, ?_, ?_, ?_⟩
    · rintro _ ⟨⟩
      exact hasBody_writeBody _ _
    · intro elf helf
      obtain ⟨hheader, j, hj, heq⟩ := hb.header elf helf
      exact ⟨(writeBody_header _ _).trans hheader, j, move_ne_received hj (by decide), heq⟩
    · intro j hj
      have hj : b.move i .bodyWritten j = .headerWritten := hj
      unfold Bridge.move at hj
      split at hj
      · cases hj
      · exact hb.written j hj
    · intro hreplied
      have hsame := hb.same hreplied
      exact ⟨hsame.1, (hg.resolve_left hreplied).symm⟩
  | header i =>
    simp only [uploadStep] at h
    split_ifs at h
    cases h
    refine ⟨?_, ?_, ?_, ?_⟩
    · intro elf helf
      exact (hb.body elf helf).writeHeader _
    · rintro _ ⟨⟩
      have hheader := set_same b.device appletHeaderLBA (headerBlock (elfs i))
      exact ⟨hheader, i, by simp [Bridge.move], rfl⟩
    · intro j _
      rfl
    · intro hreplied
      exact ⟨rfl, hg.resolve_left hreplied⟩
  | reply i =>
    simp only [uploadStep] at h
    split_ifs at h with hstage
    cases h
    refine ⟨hb.body, ?_, ?_, ?_⟩
    · intro elf helf
      obtain ⟨hheader, j, hj, heq⟩ := hb.header elf helf
      exact ⟨hheader, j, move_ne_received hj (by decide), heq⟩
    · intro j _
      exact hb.written i hstage.2
    · intro _
      exact ⟨hb.written i hstage.2, hg⟩
  | reset i =>
    simp only [uploadStep] at h
    split_ifs at h
    cases h
    exact ⟨hb.body, hb.header, hb.written, hb.same⟩

/-- **A reset after a reply finds an applet**, in every run whose steps are all orderly. -/
theorem run_whole (elfs : Nat → List UInt8) (hvalid : ∀ i, validateApplet (elfs i) = none)
    (device : Device appletBlockSize) (as : List UploadAct) (b : Bridge)
    (hrun : (uploadLts elfs device).run (receiving device) as = some b)
    (horderly : (uploadLts elfs device).Meets (Orderly elfs) (receiving device) as)
    (hreplied : b.replied ≠ []) : FindsApplet elfs b := by
  have hwhole : Whole elfs b := Lts.run_inv_of_meets (P := Whole elfs)
    (fun _ a _ hb hg hst => step_whole a hb hg hst) (whole_receiving elfs device) horderly hrun
  obtain ⟨hsome, hsame⟩ := hwhole.same hreplied
  obtain ⟨elf, helf⟩ := Option.isSome_iff_exists.1 hsome
  obtain ⟨hheader, i, hi, rfl⟩ := hwhole.header elf helf
  exact ⟨i, hi, readAppletFromSD_of_hasBody (hvalid i) hheader (hwhole.body _ (hsame.trans helf))⟩

end

theorem run_whole_two :
    ∃ b, (uploadLts twoElfs blank).run (receiving blank)
        [.body 0, .header 0, .body 1, .header 1, .reply 0, .reply 1] = some b ∧
      b.replied = [1, 0] ∧ FindsApplet twoElfs b :=
  ⟨_, rfl, rfl, run_whole twoElfs twoElfs_valid blank
    [.body 0, .header 0, .body 1, .header 1, .reply 0, .reply 1] _ rfl (by decide)
    (by simp [receiving])⟩

/-- Body, body, header, reply: the header of upload 0 stands before the body of upload 1. -/
theorem uploads_mixed :
    ∃ b, (uploadLts twoElfs fun _ => blankBlock).run (receiving fun _ => blankBlock)
        [.body 0, .body 1, .header 0, .reply 0, .reset 0] = some b ∧ b.replied = [0] ∧
      readAppletFromSD (some (card b.device)) = none ∧ ¬ FindsApplet twoElfs b := by
  have hnone : readAppletFromSD (some (card (writeHeader (writeBody
      (writeBody (fun _ => blankBlock) (twoElfs 0)) (twoElfs 1)) (twoElfs 0)))) = none := by
    by_contra hsome
    obtain ⟨elf, helf⟩ := Option.ne_none_iff_exists'.1 hsome
    have hheader := set_same (writeBody (writeBody (fun _ => blankBlock) (twoElfs 0)) (twoElfs 1))
      appletHeaderLBA (headerBlock (twoElfs 0))
    obtain ⟨hstored, hsum⟩ := read_behind_header (twoElfs_valid 0) hheader helf
    have hbody := stored_of_body ((hasBody_writeBody
      (writeBody (fun _ => blankBlock) (twoElfs 0)) (twoElfs 1)).writeHeader (twoElfs 0))
    rw [hstored.trans hbody] at hsum
    revert hsum
    decide +kernel
  refine ⟨_, rfl, rfl, hnone, ?_⟩
  rintro ⟨i, -, hi⟩
  have hi := hnone.symm.trans hi
  cases hi

end SealedSky.TrustedOs
