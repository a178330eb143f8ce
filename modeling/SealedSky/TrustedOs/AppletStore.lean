import SealedSky.Lib.BlockDev
import SealedSky.Lib.Crc32

/-!
# The applet on the SD card (`docker/trusted_os/applet_store.go`)

An upload is written to raw blocks: a header block at `appletHeaderLBA` with magic, length and CRC,
and the ELF behind it, padded to whole blocks. The body goes first. `Sd` is `usbarmory.SD` as one
call finds it: what the card holds, and how the controller answers.

* `readAppletFromSD_of_written` — what a successful write leaves is what a boot that can read the
  card gets.
* `readAppletFromSD_of_unreadable` — with any block of it unreadable the boot gets nothing.
* `readAppletFromSD_eq_some` — what a read that goes through returns, whatever the card holds.
* `writeAppletToSD_card` — on a card in working order an upload is refused and changes nothing, or
  is read back.
-/
namespace SealedSky.TrustedOs

open BlockDev Crc32

def appletMagic : List UInt8 := [0x47, 0x54, 0x41, 0x31]

def appletMaxSize : Nat := 512 * 1024

def appletBlockSize : Nat := 512

def appletHeaderLBA : Nat := 32 * 1024 * 1024 / appletBlockSize

def appletBodyLBA : Nat := appletHeaderLBA + 1

/-- The SD controller and its card. Reads and writes fail by block address. -/
structure Sd where
  detectErr : Option String
  blockSize : Nat
  readErr : Nat → Option String
  writeErr : Nat → Option String
  device : Device appletBlockSize

/-- The length and the checksum in a header block (applet_store.go:64). -/
def parseHeader (hdr : List UInt8) : Option (UInt32 × UInt32) :=
  if hdr.take 4 ≠ appletMagic then none
  else
    let length := uint32 ((hdr.drop 4).take 4)
    let want := uint32 ((hdr.drop 8).take 4)
    if length = 0 ∨ UInt32.ofNat appletMaxSize < length then none else some (length, want)

/-- The payload behind a header (applet_store.go:74). -/
def readBody (sd : Sd) (length want : UInt32) : Option (List UInt8) :=
  let nBlocks := ((length + UInt32.ofNat appletBlockSize - 1) / UInt32.ofNat appletBlockSize).toNat
  match read sd.readErr sd.device appletBodyLBA nBlocks with
  | .error _ => none
  | .ok body =>
    let elf := body.take length.toNat
    if checksum elf ≠ want then none else some elf

/-- applet_store.go:48; `none` for the controller is a nil `usbarmory.SD`. -/
def readAppletFromSD : Option Sd → Option (List UInt8)
  | none => none
  | some sd =>
    if sd.detectErr.isSome then none
    else if sd.blockSize ≠ appletBlockSize then none
    else
      match read sd.readErr sd.device appletHeaderLBA 1 with
      | .error _ => none
      | .ok hdr => (parseHeader hdr).bind fun (length, want) => readBody sd length want

/-- What `writeAppletToSD` checks of the bytes (applet_store.go:92). -/
def validateApplet (elf : List UInt8) : Option String :=
  if elf.length < 52 then some "applet: too small to be ELF"
  else if elf.take 4 ≠ [0x7f, 0x45, 0x4c, 0x46] then some "applet: missing ELF magic"
  else if elf.getD 4 0 ≠ 1 then some "applet: not ELFCLASS32"
  else if elf.getD 18 0 ≠ 0x28 then some "applet: not EM_ARM"
  else if appletMaxSize < elf.length then
    some ("applet: " ++ toString elf.length ++ " bytes exceeds max " ++ toString appletMaxSize)
  else none

def bodyBlocks (elf : List UInt8) : Nat := (elf.length + appletBlockSize - 1) / appletBlockSize

/-- The body buffer: the ELF in zeros. -/
def appletBody (elf : List UInt8) : List UInt8 :=
  elf ++ List.replicate (bodyBlocks elf * appletBlockSize - elf.length) 0

/-- The header buffer. -/
def appletHeader (elf : List UInt8) : List UInt8 :=
  appletMagic ++ (putUint32 (UInt32.ofNat elf.length) ++
    (putUint32 (checksum elf) ++ List.replicate (appletBlockSize - 12) 0))

/-- The two writes (applet_store.go:128): the body before the header. -/
def writeBlocks (sd : Sd) (elf : List UInt8) : Option String × Sd :=
  match write sd.writeErr appletBodyLBA
      (blocksOf appletBlockSize (bodyBlocks elf) (appletBody elf)) sd.device with
  | (some e, device) => (some ("applet: SD body write: " ++ e), { sd with device })
  | (none, device) =>
    match write sd.writeErr appletHeaderLBA
        (blocksOf appletBlockSize 1 (appletHeader elf)) device with
    | (some e, device) => (some ("applet: SD header write: " ++ e), { sd with device })
    | (none, device) => (none, { sd with device })

/-- applet_store.go:91: the error, if there is one, and the controller afterwards. -/
def writeAppletToSD (sd : Option Sd) (elf : List UInt8) : Option String × Option Sd :=
  match validateApplet elf with
  | some e => (some e, sd)
  | none =>
    match sd with
    | none => (some "applet: no SD controller on this board", none)
    | some sd =>
      match sd.detectErr with
      | some e => (some ("applet: SD detect failed: " ++ e), some sd)
      | none =>
        if sd.blockSize ≠ appletBlockSize then
          (some ("applet: unexpected SD block size " ++ toString sd.blockSize), some sd)
        else ((writeBlocks sd elf).1, some (writeBlocks sd elf).2)

/-! ## What an accepted upload has passed -/

theorem validateApplet_length {elf : List UInt8} (h : validateApplet elf = none) :
    52 ≤ elf.length ∧ elf.length ≤ appletMaxSize := by
  unfold validateApplet at h
  split_ifs at h with h1 h2 h3 h4 h5
  exact ⟨Nat.not_lt.1 h1, Nat.not_lt.1 h5⟩

theorem writeAppletToSD_ok {sd sd' : Option Sd} {elf : List UInt8}
    (h : writeAppletToSD sd elf = (none, sd')) :
    validateApplet elf = none ∧ ∃ s s', sd = some s ∧ sd' = some s' ∧
      writeBlocks s elf = (none, s') := by
  unfold writeAppletToSD at h
  cases hv : validateApplet elf with
  | some e =>
    rw [hv] at h
    cases h
  | none =>
    rw [hv] at h
    cases sd with
    | none => cases h
    | some s =>
      refine ⟨rfl, s, (writeBlocks s elf).2, rfl, ?_⟩
      cases hd : s.detectErr with
      | some e =>
        simp only [hd] at h
        cases h
      | none =>
        simp only [hd] at h
        split at h
        · cases h
        · obtain ⟨h1, h2⟩ := Prod.mk.inj h
          exact ⟨h2.symm, Prod.ext h1 rfl⟩

/-! ## What the card holds then -/

/-- The card holds the header of an applet and the applet behind it. -/
structure Holds (device : Device appletBlockSize) (elf : List UInt8) : Prop where
  header : ∀ i (h : i < (blocksOf appletBlockSize 1 (appletHeader elf)).length),
    device (appletHeaderLBA + i) = (blocksOf appletBlockSize 1 (appletHeader elf))[i]
  body : ∀ i (h : i < (blocksOf appletBlockSize (bodyBlocks elf) (appletBody elf)).length),
    device (appletBodyLBA + i) = (blocksOf appletBlockSize (bodyBlocks elf) (appletBody elf))[i]

theorem writeBlocks_holds {sd sd' : Sd} {elf : List UInt8} (h : writeBlocks sd elf = (none, sd')) :
    Holds sd'.device elf := by
  unfold writeBlocks at h
  generalize hb : write sd.writeErr appletBodyLBA
      (blocksOf appletBlockSize (bodyBlocks elf) (appletBody elf)) sd.device = body at h
  obtain ⟨_ | e, device⟩ := body
  · simp only at h
    generalize hh : write sd.writeErr appletHeaderLBA
        (blocksOf appletBlockSize 1 (appletHeader elf)) device = header at h
    obtain ⟨_ | e, device'⟩ := header
    · obtain ⟨-, rfl⟩ := Prod.mk.inj h
      have hdev : device' = (write sd.writeErr appletHeaderLBA
          (blocksOf appletBlockSize 1 (appletHeader elf)) device).2 := by rw [hh]
      constructor
      · intro i hi
        have := write_ok (congrArg Prod.fst hh) i hi
        rwa [← hdev] at this
      · -- the header write leaves the body alone
        intro i hi
        have hframe : (write sd.writeErr appletHeaderLBA
            (blocksOf appletBlockSize 1 (appletHeader elf)) device).2 (appletBodyLBA + i) =
              device (appletBodyLBA + i) := by
          refine write_frame (Or.inr ?_)
          rw [blocksOf_length, appletBodyLBA]
          omega
        have hbody := write_ok (congrArg Prod.fst hb) i hi
        rw [hb] at hbody
        rw [← hdev] at hframe
        exact hframe.trans hbody
    · cases h
  · cases h

theorem appletHeader_length (elf : List UInt8) : (appletHeader elf).length = 1 * appletBlockSize := by
  unfold appletHeader appletMagic appletBlockSize
  simp only [List.length_append, putUint32_length, List.length_replicate, List.length_cons,
    List.length_nil]

theorem appletBody_length (elf : List UInt8) :
    (appletBody elf).length = bodyBlocks elf * appletBlockSize := by
  unfold appletBody bodyBlocks appletBlockSize
  rw [List.length_append, List.length_replicate]
  omega

/-- The 32-bit block count does not wrap. -/
theorem nBlocks_toNat {length : UInt32} (h : length.toNat ≤ appletMaxSize) :
    ((length + UInt32.ofNat appletBlockSize - 1) / UInt32.ofNat appletBlockSize).toNat =
      (length.toNat + appletBlockSize - 1) / appletBlockSize := by
  unfold appletMaxSize at h
  rw [UInt32.toNat_div, UInt32.toNat_sub, UInt32.toNat_add, UInt32.toNat_ofNat']
  unfold appletBlockSize
  have h1 : (1 : UInt32).toNat = 1 := rfl
  have h512 : 512 % 2 ^ 32 = 512 := rfl
  have hsum : (2 ^ 32 - 1 + (length.toNat + 512) % 2 ^ 32) % 2 ^ 32 = length.toNat + 512 - 1 := by
    omega
  rw [h1, h512, hsum]

theorem length_toNat {elf : List UInt8} (h : validateApplet elf = none) :
    (UInt32.ofNat elf.length).toNat = elf.length := by
  obtain ⟨-, hhi⟩ := validateApplet_length h
  unfold appletMaxSize at hhi
  rw [UInt32.toNat_ofNat']
  omega

theorem nBlocks_eq {elf : List UInt8} (h : validateApplet elf = none) :
    ((UInt32.ofNat elf.length + UInt32.ofNat appletBlockSize - 1) /
      UInt32.ofNat appletBlockSize).toNat = bodyBlocks elf := by
  have hlen := length_toNat h
  rw [nBlocks_toNat (by rw [hlen]; exact (validateApplet_length h).2), hlen, bodyBlocks]

/-- **The header of an applet that passed the checks is read as it was written.** -/
theorem parseHeader_appletHeader {elf : List UInt8} (h : validateApplet elf = none) :
    parseHeader (appletHeader elf) = some (UInt32.ofNat elf.length, checksum elf) := by
  obtain ⟨hlo, hhi⟩ := validateApplet_length h
  unfold appletMaxSize at hhi
  have hlen := length_toNat h
  have hlength : uint32 (((appletHeader elf).drop 4).take 4) = UInt32.ofNat elf.length :=
    uint32_putUint32 _
  have hwant : uint32 (((appletHeader elf).drop 8).take 4) = checksum elf := uint32_putUint32 _
  have hmagic : (appletHeader elf).take 4 = appletMagic := rfl
  unfold parseHeader
  simp only [hlength, hwant]
  rw [if_neg (not_not.2 hmagic), if_neg]
  rintro (hzero | hmax)
  · rw [hzero] at hlen
    change 0 = elf.length at hlen
    omega
  · have hmax := UInt32.lt_iff_toNat_lt.1 hmax
    rw [hlen] at hmax
    change 524288 < elf.length at hmax
    omega

/-- A boot can read every block of an applet. -/
structure Readable (sd : Sd) (elf : List UInt8) : Prop where
  detect : sd.detectErr = none
  blockSize : sd.blockSize = appletBlockSize
  header : sd.readErr appletHeaderLBA = none
  body : ∀ i < bodyBlocks elf, sd.readErr (appletBodyLBA + i) = none

section
variable {sd : Sd} {elf : List UInt8}

theorem read_header (hcard : Holds sd.device elf) (h : sd.readErr appletHeaderLBA = none) :
    read sd.readErr sd.device appletHeaderLBA 1 = .ok (appletHeader elf) := by
  have hread := read_eq_flatten hcard.header fun i hi => by
    rw [blocksOf_length] at hi
    obtain rfl : i = 0 := by omega
    exact h
  rwa [blocksOf_length, flatten_blocksOf (appletHeader_length elf)] at hread

theorem read_body (hcard : Holds sd.device elf)
    (h : ∀ i < bodyBlocks elf, sd.readErr (appletBodyLBA + i) = none) :
    read sd.readErr sd.device appletBodyLBA (bodyBlocks elf) = .ok (appletBody elf) := by
  have hread := read_eq_flatten hcard.body fun i hi => by
    rw [blocksOf_length] at hi
    exact h i hi
  rwa [blocksOf_length, flatten_blocksOf (appletBody_length elf)] at hread

/-- **What was written is what the next boot reads.** -/
theorem readAppletFromSD_of_written (hv : validateApplet elf = none) (hcard : Holds sd.device elf)
    (h : Readable sd elf) : readAppletFromSD (some sd) = some elf := by
  have hheader := read_header hcard h.header
  have hbody := read_body hcard h.body
  have htake : (appletBody elf).take (UInt32.ofNat elf.length).toNat = elf := by
    rw [length_toNat hv, appletBody, List.take_left]
  unfold readAppletFromSD
  simp only [h.detect, Option.isSome_none, Bool.false_eq_true, if_false, h.blockSize, ne_eq,
    not_true_eq_false, hheader, parseHeader_appletHeader hv, Option.bind_some, readBody,
    nBlocks_eq hv, hbody, htake]

/-- **A boot that misses a block gets nothing.** -/
theorem readAppletFromSD_of_unreadable (hv : validateApplet elf = none)
    (hcard : Holds sd.device elf) (h : ¬ Readable sd elf) : readAppletFromSD (some sd) = none := by
  rw [readAppletFromSD]
  by_cases hdetect : sd.detectErr = none
  swap
  · rw [if_pos (Option.isSome_iff_ne_none.2 hdetect)]
  rw [if_neg (by simp [hdetect])]
  by_cases hsize : sd.blockSize = appletBlockSize
  swap
  · rw [if_pos hsize]
  rw [if_neg (not_not.2 hsize)]
  by_cases hhdr : sd.readErr appletHeaderLBA = none
  swap
  · obtain ⟨e, he⟩ := read_fails (d := sd.device) (n := 1) (a := appletHeaderLBA) (i := 0)
      (by decide) (Option.isSome_iff_ne_none.2 hhdr)
    rw [he]
  have hheader := read_header hcard hhdr
  obtain ⟨i, hi, hfail⟩ : ∃ i < bodyBlocks elf, (sd.readErr (appletBodyLBA + i)).isSome := by
    by_contra hall
    refine h ⟨hdetect, hsize, hhdr, fun i hi => ?_⟩
    by_contra hne
    exact hall ⟨i, hi, Option.isSome_iff_ne_none.2 hne⟩
  obtain ⟨e, he⟩ := read_fails (d := sd.device) hi hfail
  simp only [hheader, parseHeader_appletHeader hv, Option.bind_some, readBody, nBlocks_eq hv, he]

end

/-! ## Reading any card -/

/-- The first `n` bytes behind the header. -/
def stored (device : Device appletBlockSize) (n : Nat) : List UInt8 :=
  (contents device appletBodyLBA ((n + appletBlockSize - 1) / appletBlockSize)).take n

theorem parseHeader_eq_some {hdr : List UInt8} {length want : UInt32}
    (h : parseHeader hdr = some (length, want)) :
    length ≠ 0 ∧ length.toNat ≤ appletMaxSize ∧ want = uint32 ((hdr.drop 8).take 4) := by
  unfold parseHeader at h
  simp only at h
  split_ifs at h with hmagic hlength
  obtain ⟨rfl, rfl⟩ := Prod.mk.inj (Option.some.inj h)
  obtain ⟨hzero, hmax⟩ := not_or.1 hlength
  exact ⟨hzero, UInt32.le_iff_toNat_le.1 (UInt32.not_lt.1 hmax), rfl⟩

/-- **What a read returns**: as many bytes behind the header as it says, with the checksum it
says. -/
theorem readAppletFromSD_eq_some {sd : Sd} {elf : List UInt8}
    (h : readAppletFromSD (some sd) = some elf) :
    ∃ length, parseHeader (sd.device appletHeaderLBA).bytes = some (length, checksum elf) ∧
      elf = stored sd.device length.toNat := by
  rw [readAppletFromSD] at h
  split_ifs at h with hdetect hsize
  split at h
  · cases h
  · rename_i hdr hread
    have hhdr : hdr = (sd.device appletHeaderLBA).bytes := by
      rw [read_eq_ok hread, contents, contents, List.append_nil]
    obtain ⟨⟨length, want⟩, hparse, hbody⟩ := Option.bind_eq_some_iff.1 h
    unfold readBody at hbody
    simp only at hbody
    split at hbody
    · cases hbody
    · rename_i body hread'
      split_ifs at hbody with hcrc
      have helf : elf = body.take length.toNat := (Option.some.inj hbody).symm
      rw [not_not, ← helf] at hcrc
      refine ⟨length, by rw [← hhdr, hparse, hcrc], ?_⟩
      rw [helf, read_eq_ok hread', nBlocks_toNat (parseHeader_eq_some hparse).2.1]
      rfl

/-! ## A card in working order -/

/-- A card every block of which can be read and written. -/
def card (device : Device appletBlockSize) : Sd :=
  ⟨none, appletBlockSize, fun _ => none, fun _ => none, device⟩

theorem readable_card (device : Device appletBlockSize) (elf : List UInt8) :
    Readable (card device) elf :=
  ⟨rfl, rfl, rfl, fun _ _ => rfl⟩

/-- The card after the body write. -/
def writeBody (device : Device appletBlockSize) (elf : List UInt8) : Device appletBlockSize :=
  (write (fun _ => (none : Option String)) appletBodyLBA
    (blocksOf appletBlockSize (bodyBlocks elf) (appletBody elf)) device).2

/-- The card after the header write. -/
def writeHeader (device : Device appletBlockSize) (elf : List UInt8) : Device appletBlockSize :=
  (write (fun _ => (none : Option String)) appletHeaderLBA
    (blocksOf appletBlockSize 1 (appletHeader elf)) device).2

/-- A controller that takes every block writes both parts. -/
theorem writeBlocks_taken {sd : Sd} (elf : List UInt8) (h : ∀ a, sd.writeErr a = none) :
    writeBlocks sd elf = (none, { sd with device := writeHeader (writeBody sd.device elf) elf }) := by
  have herr : sd.writeErr = fun _ => none := funext h
  have hbody : write sd.writeErr appletBodyLBA
      (blocksOf appletBlockSize (bodyBlocks elf) (appletBody elf)) sd.device =
        (none, writeBody sd.device elf) := Prod.ext (write_fst h) (by rw [herr]; rfl)
  have hheader : write sd.writeErr appletHeaderLBA
      (blocksOf appletBlockSize 1 (appletHeader elf)) (writeBody sd.device elf) =
        (none, writeHeader (writeBody sd.device elf) elf) :=
    Prod.ext (write_fst h) (by rw [herr]; rfl)
  unfold writeBlocks
  rw [hbody]
  simp only [hheader]

theorem writeBlocks_card (device : Device appletBlockSize) (elf : List UInt8) :
    writeBlocks (card device) elf = (none, card (writeHeader (writeBody device elf) elf)) :=
  writeBlocks_taken elf fun _ => rfl

/-- **An upload to a card in working order** is refused for what it is and changes nothing, or goes
through and is read back byte by byte. -/
theorem writeAppletToSD_card (device : Device appletBlockSize) (elf : List UInt8) :
    ∃ device', writeAppletToSD (some (card device)) elf = (validateApplet elf, some (card device')) ∧
      (validateApplet elf = none → readAppletFromSD (some (card device')) = some elf) ∧
      (validateApplet elf ≠ none → device' = device) := by
  cases hv : validateApplet elf with
  | some e =>
    refine ⟨device, ?_, fun h => (Option.some_ne_none e h).elim, fun _ => rfl⟩
    unfold writeAppletToSD
    rw [hv]
  | none =>
    have hwrite := writeBlocks_card device elf
    refine ⟨writeHeader (writeBody device elf) elf, ?_, fun _ => ?_, fun h => absurd rfl h⟩
    · unfold writeAppletToSD
      rw [hv]
      have hdetect : (card device).detectErr = none := rfl
      have hsize : ¬ (card device).blockSize ≠ appletBlockSize := fun h => h rfl
      simp only [hdetect]
      rw [if_neg hsize, hwrite]
    · exact readAppletFromSD_of_written hv (writeBlocks_holds hwrite) (readable_card _ elf)

/-- An ELF header that passes the checks of the upload and names no program. -/
def bareHeader : List UInt8 :=
  [0x7f, 0x45, 0x4c, 0x46, 1] ++ (List.replicate 13 0 ++ 0x28 :: List.replicate 33 0)

theorem blank_length : (List.replicate appletBlockSize (0 : UInt8)).length = appletBlockSize :=
  List.length_replicate

def blankBlock : Block appletBlockSize := ⟨List.replicate appletBlockSize 0, blank_length⟩

theorem writeAppletToSD_card_bareHeader :
    (writeAppletToSD (some (card fun _ => blankBlock)) bareHeader).1 = none ∧
      readAppletFromSD (writeAppletToSD (some (card fun _ => blankBlock)) bareHeader).2 =
        some bareHeader := by
  obtain ⟨device, hwrite, hread, -⟩ := writeAppletToSD_card (fun _ => blankBlock) bareHeader
  have hvalid : validateApplet bareHeader = none := by decide
  rw [hwrite]
  exact ⟨hvalid, hread hvalid⟩

end SealedSky.TrustedOs
