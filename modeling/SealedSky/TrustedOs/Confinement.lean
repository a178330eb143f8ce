import SealedSky.Lib.BlockProg
import SealedSky.TrustedOs.AppletStore

/-!
# The blocks of the applet (`docker/trusted_os/applet_store.go`)

The two functions of AppletStore once more, with every slice checked and every transfer on record. The
length on the card and the uploaded bytes are not trusted.

* `readAppletFromSD_meets`, `writeAppletToSD_meets` — whatever the controller answers, the transfers
  stay in the region of the applet and no slice is out of bounds.
* `run_readAppletFromSD`, `run_writeAppletToSD` — on a card they do what the unchecked functions do.
* `applet_confined` — both together.
-/
namespace SealedSky.TrustedOs

open BlockDev BlockProg Crc32

namespace Checked

/-- applet_store.go:64. -/
def parseHeader (hdr : List UInt8) : Prog appletBlockSize String (Option (UInt32 × UInt32)) := do
  let magic ← slice hdr 0 4
  if magic ≠ appletMagic then return none
  let length := uint32 (← slice hdr 4 8)
  let want := uint32 (← slice hdr 8 12)
  if length = 0 ∨ UInt32.ofNat appletMaxSize < length then return none
  return some (length, want)

/-- applet_store.go:74. -/
def readBody (length want : UInt32) : Prog appletBlockSize String (Option (List UInt8)) := do
  let nBlocks := ((length + UInt32.ofNat appletBlockSize - 1) / UInt32.ofNat appletBlockSize).toNat
  match ← readAt appletBodyLBA nBlocks with
  | .error _ => return none
  | .ok body =>
    let elf ← slice body 0 length.toNat
    if checksum elf ≠ want then return none
    return some elf

/-- applet_store.go:48. -/
def readAppletFromSD : Option Sd → Prog appletBlockSize String (Option (List UInt8))
  | none => return none
  | some sd => do
    if sd.detectErr.isSome then return none
    if sd.blockSize ≠ appletBlockSize then return none
    match ← readAt appletHeaderLBA 1 with
    | .error _ => return none
    | .ok hdr =>
      match ← parseHeader hdr with
      | none => return none
      | some (length, want) => readBody length want

/-- applet_store.go:92. -/
def validateApplet (elf : List UInt8) : Prog appletBlockSize String (Option String) := do
  if elf.length < 52 then return some "applet: too small to be ELF"
  let magic ← slice elf 0 4
  if magic ≠ [0x7f, 0x45, 0x4c, 0x46] then return some "applet: missing ELF magic"
  let elfClass ← index elf 4
  if elfClass ≠ 1 then return some "applet: not ELFCLASS32"
  let machine ← index elf 18
  if machine ≠ 0x28 then return some "applet: not EM_ARM"
  if appletMaxSize < elf.length then
    return some ("applet: " ++ toString elf.length ++ " bytes exceeds max " ++ toString appletMaxSize)
  return none

/-- applet_store.go:119. -/
def appletBody (elf : List UInt8) : Prog appletBlockSize String (List UInt8) :=
  let n := bodyBlocks elf * appletBlockSize
  copyTo (List.replicate n 0) 0 n elf

/-- applet_store.go:123. -/
def appletHeader (elf : List UInt8) : Prog appletBlockSize String (List UInt8) := do
  let hdr ← copyTo (List.replicate appletBlockSize 0) 0 4 appletMagic
  let hdr ← copyTo hdr 4 8 (putUint32 (UInt32.ofNat elf.length))
  copyTo hdr 8 12 (putUint32 (checksum elf))

/-- applet_store.go:119-134. -/
def writeApplet (elf : List UInt8) : Prog appletBlockSize String (Option String) := do
  let body ← appletBody elf
  let hdr ← appletHeader elf
  match ← writeAt appletBodyLBA (blocksOf appletBlockSize (bodyBlocks elf) body) with
  | some e => return some ("applet: SD body write: " ++ e)
  | none =>
    match ← writeAt appletHeaderLBA (blocksOf appletBlockSize 1 hdr) with
    | some e => return some ("applet: SD header write: " ++ e)
    | none => return none

/-- applet_store.go:91. -/
def writeAppletToSD (sd : Option Sd) (elf : List UInt8) :
    Prog appletBlockSize String (Option String) := do
  match ← validateApplet elf with
  | some e => return some e
  | none =>
    match sd with
    | none => return some "applet: no SD controller on this board"
    | some sd =>
      match sd.detectErr with
      | some e => return some ("applet: SD detect failed: " ++ e)
      | none =>
        if sd.blockSize ≠ appletBlockSize then
          return some ("applet: unexpected SD block size " ++ toString sd.blockSize)
        else writeApplet elf

end Checked

/-! ## The slices are in bounds -/

theorem checked_parseHeader {hdr : List UInt8} (h : hdr.length = 1 * appletBlockSize) :
    Checked.parseHeader hdr = .done (parseHeader hdr) := by
  have hlen : 12 ≤ hdr.length := by
    rw [h]
    decide
  unfold Checked.parseHeader parseHeader
  rw [slice_of_le ⟨by omega, by omega⟩, slice_of_le ⟨by omega, by omega⟩,
    slice_of_le ⟨by omega, by omega⟩]
  simp only [done_bind, pure_eq, List.drop_zero, Nat.sub_zero, Nat.reduceSub]
  split_ifs <;> rfl

theorem checked_validateApplet (elf : List UInt8) :
    Checked.validateApplet elf = .done (validateApplet elf) := by
  unfold Checked.validateApplet validateApplet
  by_cases hsmall : elf.length < 52
  · rw [if_pos hsmall, if_pos hsmall]
    rfl
  · rw [if_neg hsmall, if_neg hsmall, slice_of_le ⟨by omega, by omega⟩, index_of_lt (by omega),
      index_of_lt (by omega)]
    simp only [done_bind, pure_eq, List.drop_zero, Nat.sub_zero]
    split_ifs <;> rfl

theorem checked_appletBody (elf : List UInt8) : Checked.appletBody elf = .done (appletBody elf) := by
  have hlen : elf.length ≤ bodyBlocks elf * appletBlockSize := by
    unfold bodyBlocks appletBlockSize
    omega
  have hbound : bodyBlocks elf * appletBlockSize ≤
      (List.replicate (bodyBlocks elf * appletBlockSize) (0 : UInt8)).length :=
    Nat.le_of_eq List.length_replicate.symm
  unfold Checked.appletBody appletBody
  simp only
  rw [copyTo_of_le ⟨Nat.zero_le _, hbound⟩, Nat.sub_zero, Nat.min_eq_right hlen,
    List.take_of_length_le hlen, Nat.zero_add, List.drop_replicate]
  rfl

theorem checked_appletHeader (elf : List UInt8) :
    Checked.appletHeader elf = .done (appletHeader elf) := by
  have hlength := putUint32_length (UInt32.ofNat elf.length)
  have hcrc := putUint32_length (checksum elf)
  have hfront : (appletMagic ++ putUint32 (UInt32.ofNat elf.length)).length = 8 := by
    rw [List.length_append, hlength]
    rfl
  have h1 : (copyTo ([] ++ List.replicate appletBlockSize 0) 0 4 appletMagic :
      Prog appletBlockSize String (List UInt8)) =
        .done ([] ++ (appletMagic ++ List.replicate 508 0)) :=
    copyTo_zeros rfl rfl (by decide)
  have h2 : (copyTo (appletMagic ++ List.replicate 508 0) 4 8 (putUint32 (UInt32.ofNat elf.length)) :
      Prog appletBlockSize String (List UInt8)) =
        .done (appletMagic ++ (putUint32 (UInt32.ofNat elf.length) ++ List.replicate 504 0)) :=
    copyTo_zeros rfl (by rw [hlength]) (by rw [hlength])
  have h3 : (copyTo (appletMagic ++ putUint32 (UInt32.ofNat elf.length) ++ List.replicate 504 0) 8 12
      (putUint32 (checksum elf)) : Prog appletBlockSize String (List UInt8)) =
        .done (appletMagic ++ putUint32 (UInt32.ofNat elf.length) ++
          (putUint32 (checksum elf) ++ List.replicate 500 0)) :=
    copyTo_zeros hfront (by rw [hcrc]) (by rw [hcrc])
  unfold Checked.appletHeader appletHeader
  rw [← List.nil_append (List.replicate appletBlockSize (0 : UInt8)), h1, done_bind,
    List.nil_append, h2, done_bind, ← List.append_assoc, h3, List.append_assoc]
  rfl

/-! ## The transfers stay in the region -/

/-- The header block and the blocks behind it for the longest applet. -/
def InRegion (a : Nat) : Prop := 65536 ≤ a ∧ a ≤ 66560

/-- What is returned is an ELF of a size that fits. -/
def Sized (r : Option (List UInt8)) : Prop :=
  ∀ elf, r = some elf → 1 ≤ elf.length ∧ elf.length ≤ 524288

theorem parseHeader_bounds {hdr : List UInt8} {length want : UInt32}
    (h : parseHeader hdr = some (length, want)) :
    1 ≤ length.toNat ∧ length.toNat ≤ 524288 := by
  obtain ⟨hne, hmax, -⟩ := parseHeader_eq_some h
  have hzero : length.toNat ≠ 0 := fun hzero => hne (UInt32.toNat_inj.1 hzero)
  exact ⟨Nat.one_le_iff_ne_zero.2 hzero, hmax⟩

theorem inRegion_header {i : Nat} (h : i < 1) : InRegion (appletHeaderLBA + i) := by
  obtain rfl : i = 0 := by omega
  exact ⟨by decide, by decide⟩

theorem inRegion_body {n i : Nat} (hn : n ≤ 524288) (h : i < (n + 512 - 1) / 512) :
    InRegion (appletBodyLBA + i) := by
  have hbody : appletBodyLBA = 65537 := rfl
  unfold InRegion
  omega

/-- The body buffer holds the whole applet. -/
theorem length_le_nBlocks {length : UInt32} (h : length.toNat ≤ 524288) :
    length.toNat ≤ ((length + UInt32.ofNat appletBlockSize - 1) / UInt32.ofNat appletBlockSize).toNat *
      appletBlockSize := by
  rw [nBlocks_toNat h]
  unfold appletBlockSize
  omega

theorem readBody_meets {length : UInt32} (want : UInt32)
    (h : 1 ≤ length.toNat ∧ length.toNat ≤ 524288) :
    Meets InRegion Sized (Checked.readBody length want) := by
  unfold Checked.readBody
  rw [readAt_bind]
  refine ⟨fun i hi => ?_, fun r hr => ?_⟩
  · rw [nBlocks_toNat h.2] at hi
    exact inRegion_body h.2 hi
  · cases r with
    | error e => exact fun elf helf => by cases helf
    | ok body =>
      have hlen : length.toNat ≤ body.length := by
        rw [hr body rfl]
        exact length_le_nBlocks h.2
      simp only
      rw [slice_of_le ⟨Nat.zero_le _, hlen⟩, done_bind]
      split
      · exact fun elf helf => by cases helf
      · rintro elf ⟨⟩
        rw [List.drop_zero, List.length_take]
        omega

theorem readAppletFromSD_meets (sd : Option Sd) :
    Meets InRegion Sized (Checked.readAppletFromSD sd) := by
  have hnone : Meets InRegion Sized (.done none : Prog appletBlockSize String _) :=
    fun elf helf => by cases helf
  cases sd with
  | none => exact hnone
  | some sd =>
    unfold Checked.readAppletFromSD
    simp only
    split_ifs with hdetect hsize
    · exact hnone
    · exact hnone
    · rw [readAt_bind]
      refine ⟨fun i hi => inRegion_header hi, fun r hr => ?_⟩
      cases r with
      | error e => exact hnone
      | ok hdr =>
        simp only
        rw [checked_parseHeader (hr hdr rfl), done_bind]
        cases hparse : parseHeader hdr with
        | none => exact hnone
        | some p => exact readBody_meets p.2 (parseHeader_bounds hparse)

theorem writeAppletToSD_meets (sd : Option Sd) (elf : List UInt8) :
    Meets InRegion (fun _ => True) (Checked.writeAppletToSD sd elf) := by
  unfold Checked.writeAppletToSD
  rw [checked_validateApplet, done_bind]
  cases hvalid : validateApplet elf with
  | some e => trivial
  | none =>
    cases sd with
    | none => trivial
    | some sd =>
      simp only
      split
      · trivial
      · split
        · trivial
        · unfold Checked.writeApplet
          rw [checked_appletBody, checked_appletHeader, done_bind, done_bind, writeAt_bind]
          refine ⟨fun i hi => ?_, fun e => ?_⟩
          · rw [blocksOf_length] at hi
            exact inRegion_body (validateApplet_length hvalid).2 hi
          · cases e with
            | some e => trivial
            | none =>
              refine ⟨fun i hi => ?_, fun e => ?_⟩
              · rw [blocksOf_length] at hi
                exact inRegion_header hi
              · cases e <;> trivial

/-! ## What the checked functions do on a card -/

section
variable (sd : Sd)

/-- A program on the controller. -/
def Sd.run {α : Type} (p : Prog appletBlockSize String α) : Run appletBlockSize α :=
  p.run sd.readErr sd.writeErr sd.device

theorem run_readBody {length : UInt32} (want : UInt32) (h : length.toNat ≤ 524288) :
    (sd.run (Checked.readBody length want)).result = some (readBody sd length want) := by
  unfold Sd.run Checked.readBody readBody
  simp only [readAt_bind, Prog.run]
  generalize hread : BlockDev.read sd.readErr sd.device appletBodyLBA
    ((length + UInt32.ofNat appletBlockSize - 1) / UInt32.ofNat appletBlockSize).toNat = read
  cases read with
  | error e => rfl
  | ok body =>
    have hlen : length.toNat ≤ body.length := by
      rw [read_eq_ok hread, contents_length]
      exact length_le_nBlocks h
    simp only
    rw [slice_of_le ⟨Nat.zero_le _, hlen⟩, done_bind, List.drop_zero, Nat.sub_zero]
    split_ifs <;> rfl

theorem run_readAppletFromSD :
    (sd.run (Checked.readAppletFromSD (some sd))).result = some (readAppletFromSD (some sd)) := by
  unfold Sd.run Checked.readAppletFromSD readAppletFromSD
  simp only
  split_ifs with hdetect hsize
  · rfl
  · rfl
  · simp only [readAt_bind, Prog.run]
    generalize hread : BlockDev.read sd.readErr sd.device appletHeaderLBA 1 = read
    cases read with
    | error e => rfl
    | ok hdr =>
      have hlen : hdr.length = 1 * appletBlockSize := by rw [read_eq_ok hread, contents_length]
      simp only
      rw [checked_parseHeader hlen, done_bind]
      cases hparse : parseHeader hdr with
      | none => rfl
      | some p => exact run_readBody sd p.2 (parseHeader_bounds hparse).2

theorem run_writeApplet (elf : List UInt8) :
    (sd.run (Checked.writeApplet elf)).result = some (writeBlocks sd elf).1 ∧
      { sd with device := (sd.run (Checked.writeApplet elf)).device } = (writeBlocks sd elf).2 := by
  unfold Sd.run Checked.writeApplet writeBlocks
  rw [checked_appletBody, checked_appletHeader, done_bind, done_bind]
  simp only [writeAt_bind, Prog.run]
  generalize BlockDev.write sd.writeErr appletBodyLBA
    (blocksOf appletBlockSize (bodyBlocks elf) (appletBody elf)) sd.device = body
  obtain ⟨_ | e, device⟩ := body
  · simp only [Prog.run]
    generalize BlockDev.write sd.writeErr appletHeaderLBA
      (blocksOf appletBlockSize 1 (appletHeader elf)) device = header
    obtain ⟨_ | e, device'⟩ := header
    · exact ⟨rfl, rfl⟩
    · exact ⟨rfl, rfl⟩
  · exact ⟨rfl, rfl⟩

theorem run_writeAppletToSD (elf : List UInt8) :
    (sd.run (Checked.writeAppletToSD (some sd) elf)).result = some (writeAppletToSD (some sd) elf).1 ∧
      some { sd with device := (sd.run (Checked.writeAppletToSD (some sd) elf)).device } =
        (writeAppletToSD (some sd) elf).2 := by
  have hwrite := run_writeApplet sd elf
  obtain ⟨detectErr, blockSize, readErr, writeErr, device⟩ := sd
  unfold Sd.run at hwrite ⊢
  unfold Checked.writeAppletToSD writeAppletToSD
  rw [checked_validateApplet, done_bind]
  cases hvalid : validateApplet elf with
  | some e => exact ⟨rfl, rfl⟩
  | none =>
    simp only
    cases detectErr with
    | some e => exact ⟨rfl, rfl⟩
    | none =>
      simp only
      split_ifs with hsize
      · exact ⟨rfl, rfl⟩
      · exact ⟨hwrite.1, congrArg some hwrite.2⟩

end

/-! ## Confinement -/

/-- The 32-bit sum before the division, step by step. -/
theorem blockSum_toNat {length : UInt32} (h : length.toNat ≤ 524288) :
    (length + UInt32.ofNat appletBlockSize).toNat = length.toNat + 512 ∧
      (length + UInt32.ofNat appletBlockSize - 1).toNat = length.toNat + 511 := by
  have hsum : (length + UInt32.ofNat appletBlockSize).toNat = length.toNat + 512 := by
    have hsize : (UInt32.ofNat appletBlockSize).toNat = 512 := rfl
    rw [UInt32.toNat_add, hsize]
    omega
  refine ⟨hsum, ?_⟩
  have hone : (1 : UInt32).toNat = 1 := rfl
  rw [UInt32.toNat_sub, hsum, hone]
  omega

/-- Where a read goes and what it returns, on any card. -/
theorem readAppletFromSD_confined (sd : Sd) :
    (sd.run (Checked.readAppletFromSD (some sd))).result = some (readAppletFromSD (some sd)) ∧
      (∀ a ∈ (sd.run (Checked.readAppletFromSD (some sd))).touched, 65536 ≤ a ∧ a ≤ 66560) ∧
      ∀ elf, readAppletFromSD (some sd) = some elf → 1 ≤ elf.length ∧ elf.length ≤ 524288 ∧
        checksum elf = uint32 (((sd.device appletHeaderLBA).bytes.drop 8).take 4) := by
  obtain ⟨⟨r, hr, hsized⟩, htouched, -⟩ :=
    (readAppletFromSD_meets (some sd)).run sd.readErr sd.writeErr sd.device
  have hresult := run_readAppletFromSD sd
  refine ⟨hresult, htouched, fun elf helf => ?_⟩
  obtain ⟨length, hparse, -⟩ := readAppletFromSD_eq_some helf
  have hsame : r = some elf := by
    rw [← helf]
    exact Option.some.inj (hr.symm.trans hresult)
  exact ⟨(hsized elf hsame).1, (hsized elf hsame).2, (parseHeader_eq_some hparse).2.2⟩

/-- Where a write goes, on any card and for any bytes. -/
theorem writeAppletToSD_confined (sd : Sd) (elf : List UInt8) :
    (sd.run (Checked.writeAppletToSD (some sd) elf)).result =
        some (writeAppletToSD (some sd) elf).1 ∧
      (∀ a ∈ (sd.run (Checked.writeAppletToSD (some sd) elf)).touched, 65536 ≤ a ∧ a ≤ 66560) ∧
      ∃ sd', (writeAppletToSD (some sd) elf).2 = some sd' ∧
        ∀ a, a < 65536 → sd'.device a = sd.device a := by
  obtain ⟨-, htouched, hframe⟩ :=
    (writeAppletToSD_meets (some sd) elf).run sd.readErr sd.writeErr sd.device
  obtain ⟨hresult, hdevice⟩ := run_writeAppletToSD sd elf
  refine ⟨hresult, htouched, _, hdevice.symm, fun a ha => hframe a fun hin => ?_⟩
  have := hin.1
  omega

/-- **The applet keeps to its region**, whatever is on the card and whatever is uploaded: no slice is
out of bounds, no transfer reaches the image of the Trusted OS, the 32-bit arithmetic of the lengths
does not wrap, and what is returned has the size and the checksum of an applet. Without a controller
there is no transfer. -/
theorem applet_confined (sd : Sd) (elf : List UInt8) :
    ((sd.run (Checked.readAppletFromSD (some sd))).result = some (readAppletFromSD (some sd)) ∧
      (∀ a ∈ (sd.run (Checked.readAppletFromSD (some sd))).touched, 65536 ≤ a ∧ a ≤ 66560) ∧
      ∀ elf, readAppletFromSD (some sd) = some elf → 1 ≤ elf.length ∧ elf.length ≤ 524288 ∧
        checksum elf = uint32 (((sd.device appletHeaderLBA).bytes.drop 8).take 4)) ∧
    ((sd.run (Checked.writeAppletToSD (some sd) elf)).result =
        some (writeAppletToSD (some sd) elf).1 ∧
      (∀ a ∈ (sd.run (Checked.writeAppletToSD (some sd) elf)).touched, 65536 ≤ a ∧ a ≤ 66560) ∧
      ∃ sd', (writeAppletToSD (some sd) elf).2 = some sd' ∧
        ∀ a, a < 65536 → sd'.device a = sd.device a) ∧
    ((∀ hdr length want, parseHeader hdr = some (length, want) →
        (length + UInt32.ofNat appletBlockSize).toNat = length.toNat + 512 ∧
        (length + UInt32.ofNat appletBlockSize - 1).toNat = length.toNat + 511) ∧
      (validateApplet elf = none → (UInt32.ofNat elf.length).toNat = elf.length)) ∧
    Checked.readAppletFromSD none = .done none ∧
    ∃ e, Checked.writeAppletToSD none elf = .done (some e) := by
  refine ⟨readAppletFromSD_confined sd, writeAppletToSD_confined sd elf,
    ⟨fun hdr length want h => blockSum_toNat (parseHeader_bounds h).2, length_toNat⟩, rfl, ?_⟩
  unfold Checked.writeAppletToSD
  rw [checked_validateApplet, done_bind]
  cases validateApplet elf with
  | some e => exact ⟨e, rfl⟩
  | none => exact ⟨_, rfl⟩

end SealedSky.TrustedOs
