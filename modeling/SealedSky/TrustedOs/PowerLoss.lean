import SealedSky.Lib.Lts
import SealedSky.TrustedOs.AppletStore

/-!
# Uploads cut by a power loss (`docker/trusted_os/applet_store.go`)

`writeAppletToSD` block by block: the body in ascending order, then the one header block. The power
may go before any of them. While a new body is being written the header is still that of an earlier
upload, so the card holds a mixture; what keeps it from being read is the checksum alone.

* `upload_completes` — all the blocks together are `writeAppletToSD`.
* `readAppletFromSD_accepted` — at any moment of any run of uploads and power losses a read returns
  nothing or an applet whose upload went through.
-/
namespace SealedSky.TrustedOs

open BlockDev Crc32

/-- An upload under way and how many body blocks it has written. -/
structure Upload where
  elf : List UInt8
  written : Nat

structure Card where
  device : Device appletBlockSize
  upload : Option Upload
  /-- The uploads that went through. -/
  accepted : List (List UInt8)
  /-- History: everything the card has held, as it is now included. -/
  held : List (Device appletBlockSize)

inductive CardAct where
  /-- `writeAppletToSD` is called. -/
  | upload (elf : List UInt8)
  /-- It writes its next block. -/
  | block
  | powerLoss

def bodyBlock (elf : List UInt8) (i : Nat) : Option (Block appletBlockSize) :=
  (blocksOf appletBlockSize (bodyBlocks elf) (appletBody elf))[i]?

def headerBlock (elf : List UInt8) : Block appletBlockSize :=
  firstBlock appletBlockSize (appletHeader elf)

/-- The next block of an upload: of the body while there is one, else the header. -/
def writeNext (c : Card) (u : Upload) : Card :=
  match bodyBlock u.elf u.written with
  | some v =>
    let device := c.device.set (appletBodyLBA + u.written) v
    { c with device, upload := some { u with written := u.written + 1 }, held := device :: c.held }
  | none =>
    let device := c.device.set appletHeaderLBA (headerBlock u.elf)
    { device, upload := none, accepted := c.accepted ++ [u.elf], held := device :: c.held }

def cardStep (c : Card) : CardAct → Option Card
  | .upload elf =>
    if c.upload.isSome then none
    else if (validateApplet elf).isSome then some c
    else some { c with upload := some ⟨elf, 0⟩ }
  | .block => c.upload.map (writeNext c)
  | .powerLoss => some { c with upload := none }

/-- A card as it is put in. -/
def inserted (device : Device appletBlockSize) : Card := ⟨device, none, [], [device]⟩

def cardLts (device : Device appletBlockSize) : Lts Card CardAct := ⟨inserted device, cardStep⟩

/-! ## All the blocks of an upload -/

section
variable {device : Device appletBlockSize} {c c' : Card} {elf : List UInt8}

theorem writeHeader_eq (device : Device appletBlockSize) (elf : List UInt8) :
    writeHeader device elf = device.set appletHeaderLBA (headerBlock elf) := rfl

/-- The body blocks that are left, and the header. -/
theorem run_blocks (device : Device appletBlockSize) (elf : List UInt8)
    {vs : List (Block appletBlockSize)} {written : Nat}
    (hleft : (blocksOf appletBlockSize (bodyBlocks elf) (appletBody elf)).drop written = vs)
    (hc : c.upload = some ⟨elf, written⟩) :
    ∃ c', (cardLts device).run c (List.replicate (vs.length + 1) .block) = some c' ∧
      c'.device = writeHeader
        (write (fun _ => (none : Option String)) (appletBodyLBA + written) vs c.device).2 elf ∧
      c'.accepted = c.accepted ++ [elf] ∧ c'.upload = none := by
  induction vs generalizing c written with
  | nil =>
    have hnext : bodyBlock elf written = none := by
      rw [bodyBlock, List.getElem?_eq_none_iff]
      exact List.drop_eq_nil_iff.1 hleft
    have hstep : cardStep c .block = some (writeNext c ⟨elf, written⟩) := by
      rw [cardStep, hc, Option.map_some]
    refine ⟨writeNext c ⟨elf, written⟩, (Lts.run_cons _).2 ⟨_, hstep, rfl⟩, ?_, ?_⟩
    · simp only [writeNext, hnext]
      rfl
    · simp only [writeNext, hnext, and_self]
  | cons v vs ih =>
    have hnext : bodyBlock elf written = some v := by
      rw [bodyBlock, ← List.head?_drop, hleft]
      rfl
    have hleft' : (blocksOf appletBlockSize (bodyBlocks elf) (appletBody elf)).drop (written + 1) =
        vs := by
      rw [← List.tail_drop, hleft, List.tail_cons]
    have hstep : cardStep c .block = some (writeNext c ⟨elf, written⟩) := by
      rw [cardStep, hc, Option.map_some]
    have hupload : (writeNext c ⟨elf, written⟩).upload = some ⟨elf, written + 1⟩ := by
      simp only [writeNext, hnext]
    obtain ⟨c', hrun, hdevice, haccepted, hdone⟩ := ih hleft' hupload
    refine ⟨c', (Lts.run_cons _).2 ⟨_, hstep, hrun⟩, ?_, ?_, hdone⟩
    · rw [hdevice, write_cons_of_ok rfl]
      simp only [writeNext, hnext]
      rfl
    · rw [haccepted]
      simp only [writeNext, hnext]

/-- **An upload that is not cut is `writeAppletToSD`.** -/
theorem upload_completes (hv : validateApplet elf = none) (hc : c.upload = none) :
    ∃ c', (cardLts device).run c
        (.upload elf :: List.replicate (bodyBlocks elf + 1) .block) = some c' ∧
      writeAppletToSD (some (card c.device)) elf = (none, some (card c'.device)) ∧
      c'.accepted = c.accepted ++ [elf] := by
  have hstep : cardStep c (.upload elf) = some { c with upload := some ⟨elf, 0⟩ } := by
    simp [cardStep, hc, hv]
  obtain ⟨c', hrun, hdevice, haccepted, -⟩ := run_blocks device elf
    (c := { c with upload := some ⟨elf, 0⟩ }) rfl rfl
  rw [List.drop_zero, blocksOf_length] at hrun
  refine ⟨c', (Lts.run_cons _).2 ⟨_, hstep, hrun⟩, ?_, haccepted⟩
  have hsize : ¬ (card c.device).blockSize ≠ appletBlockSize := fun h => h rfl
  have hdetect : (card c.device).detectErr = none := rfl
  unfold writeAppletToSD
  rw [hv]
  simp only [hdetect]
  rw [if_neg hsize, writeBlocks_card, hdevice]
  rfl

/-! ## Every run -/

/-- No two texts that were on the card behind the header, of one length, have one checksum. -/
def NoCrcCollision (c : Card) : Prop :=
  ∀ d ∈ c.held, ∀ d' ∈ c.held, ∀ n ≤ appletMaxSize,
    checksum (stored d n) = checksum (stored d' n) → stored d n = stored d' n

/-- The header, if it is one, is that of an upload that went through, and its applet was on the
card. -/
def HeaderKept (c : Card) : Prop :=
  parseHeader (c.device appletHeaderLBA).bytes = none ∨
    ∃ elf ∈ c.accepted, validateApplet elf = none ∧
      c.device appletHeaderLBA = headerBlock elf ∧ ∃ d ∈ c.held, stored d elf.length = elf

theorem HeaderKept.frame (h : HeaderKept c) (hheader : c'.device appletHeaderLBA =
    c.device appletHeaderLBA) (hacc : c'.accepted = c.accepted)
    (hheld : ∀ d ∈ c.held, d ∈ c'.held) : HeaderKept c' := by
  unfold HeaderKept
  rw [hheader, hacc]
  refine Or.imp_right ?_ h
  rintro ⟨elf, hacc, hv, hblock, d, hd, helf⟩
  exact ⟨elf, hacc, hv, hblock, d, hheld d hd, helf⟩

structure Kept (c : Card) : Prop where
  header : HeaderKept c
  valid : ∀ u ∈ c.upload, validateApplet u.elf = none
  /-- The body blocks that an upload has written are on the card. -/
  body : ∀ u ∈ c.upload, ∀ i < u.written, ∀ v ∈ bodyBlock u.elf i, c.device (appletBodyLBA + i) = v
  now : c.device ∈ c.held

theorem kept_inserted (h : parseHeader (device appletHeaderLBA).bytes = none) :
    Kept (inserted device) where
  header := Or.inl h
  valid := by simp [inserted]
  body := by simp [inserted]
  now := List.mem_singleton_self _

theorem headerBlock_bytes (elf : List UInt8) : (headerBlock elf).bytes = appletHeader elf := by
  have hlen := appletHeader_length elf
  have hblocks := flatten_blocksOf hlen
  rwa [blocksOf, flatten, List.flatMap_cons, blocksOf, List.flatMap_nil, List.append_nil] at hblocks

/-- What is read behind the header of an applet: as many bytes, with the same checksum. -/
theorem read_behind_header {sd : Sd} {elf elf' : List UInt8} (hv : validateApplet elf' = none)
    (hheader : sd.device appletHeaderLBA = headerBlock elf')
    (h : readAppletFromSD (some sd) = some elf) :
    elf = stored sd.device elf'.length ∧ checksum elf = checksum elf' := by
  obtain ⟨length, hparse, hstored⟩ := readAppletFromSD_eq_some h
  rw [hheader, headerBlock_bytes, parseHeader_appletHeader hv] at hparse
  obtain ⟨hlength, hsum⟩ := Prod.mk.inj (Option.some.inj hparse)
  rw [← hlength, length_toNat hv] at hstored
  exact ⟨hstored, hsum.symm⟩

/-- A body that is on the card whole is read as it is. -/
theorem stored_of_body {d : Device appletBlockSize}
    (h : ∀ i, ∀ v ∈ bodyBlock elf i, d (appletBodyLBA + i) = v) : stored d elf.length = elf := by
  have hbody : contents d appletBodyLBA
      (blocksOf appletBlockSize (bodyBlocks elf) (appletBody elf)).length =
        flatten (blocksOf appletBlockSize (bodyBlocks elf) (appletBody elf)) :=
    contents_eq_flatten fun i hi => h i _ (List.getElem?_eq_getElem hi)
  rw [blocksOf_length, flatten_blocksOf (appletBody_length elf)] at hbody
  rw [stored, ← bodyBlocks, hbody, appletBody, List.take_left]

theorem step_kept (a : CardAct) (hc : Kept c) (h : cardStep c a = some c') : Kept c' := by
  cases a with
  | upload elf =>
    simp only [cardStep] at h
    split_ifs at h with hbusy hinvalid
    · cases h
      exact hc
    · cases h
      refine ⟨hc.header, ?_, ?_, hc.now⟩
      · rintro u ⟨⟩
        simpa using hinvalid
      · rintro u ⟨⟩ i hi
        exact absurd hi (Nat.not_lt_zero i)
  | powerLoss =>
    cases h
    exact ⟨hc.header, by simp, by simp, hc.now⟩
  | block =>
    obtain ⟨u, hu, rfl⟩ := Option.map_eq_some_iff.1 h
    cases hnext : bodyBlock u.elf u.written with
    | some v =>
      have hother : ∀ a, a ≠ appletBodyLBA + u.written →
          c.device.set (appletBodyLBA + u.written) v a = c.device a := fun a ha =>
        set_other ha _ _
      simp only [writeNext, hnext]
      refine ⟨?_, ?_, ?_, List.mem_cons_self⟩
      · -- the body is written beside the header
        exact hc.header.frame (hother appletHeaderLBA (by rw [appletBodyLBA]; omega)) rfl
          fun d hd => List.mem_cons_of_mem _ hd
      · rintro _ ⟨⟩
        exact hc.valid u hu
      · rintro _ ⟨⟩ i hi w hw
        rcases Nat.lt_succ_iff_lt_or_eq.1 hi with hi | rfl
        · exact (hother _ (by omega)).trans (hc.body u hu i hi w hw)
        · exact (set_same _ _ _).trans (Option.mem_unique hnext hw)
    | none =>
      have hheader := set_same c.device appletHeaderLBA (headerBlock u.elf)
      simp only [writeNext, hnext]
      refine ⟨Or.inr ⟨u.elf, by simp, hc.valid u hu, hheader, _, List.mem_cons_self, ?_⟩,
        by simp, by simp, List.mem_cons_self⟩
      refine stored_of_body fun i v hv => ?_
      rw [set_other (by rw [appletBodyLBA]; omega)]
      refine hc.body u hu i ?_ v hv
      -- there is no block from `written` on
      have hlen := List.getElem?_eq_none_iff.1 hnext
      obtain ⟨hi, -⟩ := List.getElem?_eq_some_iff.1 hv
      omega

theorem run_kept {as : List CardAct} (h : parseHeader (device appletHeaderLBA).bytes = none)
    (hrun : (cardLts device).run (inserted device) as = some c) : Kept c :=
  Lts.run_inv (P := Kept) (fun _ a _ hc hst => step_kept a hc hst) (kept_inserted h) hrun

/-- **What is read is an applet whose upload went through**, at any moment of any run of uploads
and power losses, or nothing. -/
theorem readAppletFromSD_accepted (device : Device appletBlockSize)
    (hblank : parseHeader (device appletHeaderLBA).bytes = none) (as : List CardAct) (c : Card)
    (hrun : (cardLts device).run (inserted device) as = some c) (hcrc : NoCrcCollision c) (sd : Sd)
    (hsd : sd.device = c.device) : ∀ elf ∈ readAppletFromSD (some sd), elf ∈ c.accepted := by
  intro elf helf
  have hkept := run_kept hblank hrun
  rcases hkept.header with hno | ⟨elf', hacc, hv, hblock, d, hd, helf'⟩
  · obtain ⟨length, hparse, -⟩ := readAppletFromSD_eq_some helf
    rw [hsd, hno] at hparse
    cases hparse
  · obtain ⟨hstored, hsum⟩ := read_behind_header hv (hsd ▸ hblock) helf
    rw [hsd] at hstored
    have hmax := (validateApplet_length hv).2
    have hsame := hcrc d hd c.device hkept.now elf'.length hmax (by rw [helf', ← hstored, hsum])
    rw [hstored, ← hsame, helf']
    exact hacc

end

/-- Two applets that differ in their last byte. -/
def twoElfs (i : Nat) : List UInt8 :=
  bareHeader.take 51 ++ [if i = 0 then 0 else 1]

theorem twoElfs_valid (i : Nat) : validateApplet (twoElfs i) = none := by
  unfold twoElfs
  split <;> decide

/-- The body block of `twoElfs`. -/
def twoBody (i : Nat) : Block appletBlockSize := firstBlock appletBlockSize (appletBody (twoElfs i))

def blank : Device appletBlockSize := fun _ => blankBlock

def withBody (device : Device appletBlockSize) (i : Nat) : Device appletBlockSize :=
  device.set appletBodyLBA (twoBody i)

theorem contents_blank {d : Device appletBlockSize} {n a : Nat} (h : ∀ i, d (a + i) = blankBlock) :
    contents d a n = List.replicate (n * 512) 0 := by
  induction n generalizing a with
  | zero => rfl
  | succ n ih =>
    have hhead : d a = blankBlock := h 0
    have hrest : ∀ i, d (a + 1 + i) = blankBlock := fun i => by
      rw [Nat.add_assoc, Nat.add_comm 1 i]
      exact h (i + 1)
    have hbytes : blankBlock.bytes = List.replicate 512 0 := rfl
    rw [contents, hhead, hbytes, ih hrest, List.replicate_append_replicate]
    congr 1
    omega

/-- What is stored on a card whose body begins with a text and is blank behind it. -/
theorem stored_front {d : Device appletBlockSize} {text : List UInt8} (hlen : text.length = 52)
    (hfirst : (d appletBodyLBA).bytes = text ++ List.replicate 460 0)
    (hrest : ∀ i, d (appletBodyLBA + 1 + i) = blankBlock) (n : Nat) :
    stored d n = (text ++ List.replicate n 0).take n := by
  cases n with
  | zero => simp [stored]
  | succ n =>
    obtain ⟨m, hm⟩ : ∃ m, (n + 1 + appletBlockSize - 1) / appletBlockSize = m + 1 :=
      ⟨n / 512, by unfold appletBlockSize; omega⟩
    have hlong : n + 1 ≤ 512 + m * 512 := by
      unfold appletBlockSize at hm
      omega
    rw [stored, hm, contents, hfirst, contents_blank hrest, List.append_assoc,
      List.replicate_append_replicate, List.take_append, List.take_append, List.take_replicate,
      List.take_replicate, hlen]
    congr 2
    omega

/-- Upload 1 is cut before its header; upload 0 goes through. -/
def cutRun : List CardAct :=
  [.upload (twoElfs 1), .block, .powerLoss, .upload (twoElfs 0), .block, .block]

/-- A blank card after it. -/
def cutCard : Card :=
  let torn := withBody blank 1
  let body := withBody torn 0
  let whole := body.set appletHeaderLBA (headerBlock (twoElfs 0))
  ⟨whole, none, [twoElfs 0], [whole, body, torn, blank]⟩

theorem run_cut : (cardLts blank).run (inserted blank) cutRun = some cutCard := rfl

/-- The three texts that the card has held behind its header. -/
def cutTexts : List (List UInt8) := [twoElfs 0, twoElfs 1, List.replicate 52 0]

theorem stored_cut : ∀ d ∈ cutCard.held, ∃ text ∈ cutTexts, text.length = 52 ∧
    ∀ n, stored d n = (text ++ List.replicate n 0).take n := by
  have hbody : ∀ i, appletBodyLBA + 1 + i ≠ appletBodyLBA := fun i => by omega
  have hheader : ∀ i, appletBodyLBA + 1 + i ≠ appletHeaderLBA := fun i => by
    rw [appletBodyLBA]
    omega
  intro d hd
  simp only [cutCard, List.mem_cons, List.not_mem_nil, or_false] at hd
  rcases hd with rfl | rfl | rfl | rfl
  · refine ⟨twoElfs 0, by decide, rfl, stored_front rfl (by decide +kernel) fun i => ?_⟩
    rw [set_other (hheader i), withBody, set_other (hbody i), withBody, set_other (hbody i), blank]
  · refine ⟨twoElfs 0, by decide, rfl, stored_front rfl (by decide +kernel) fun i => ?_⟩
    rw [withBody, set_other (hbody i), withBody, set_other (hbody i), blank]
  · refine ⟨twoElfs 1, by decide, rfl, stored_front rfl (by decide +kernel) fun i => ?_⟩
    rw [withBody, set_other (hbody i), blank]
  · exact ⟨List.replicate 52 0, by decide, rfl, stored_front rfl (by decide +kernel) fun i => rfl⟩

theorem noCrcCollision_cut : NoCrcCollision cutCard := by
  have hshort : ∀ text ∈ cutTexts, ∀ text' ∈ cutTexts, ∀ n < 53,
      checksum (text.take n) = checksum (text'.take n) → text.take n = text'.take n := by
    decide +kernel
  intro d hd d' hd' n _ hsum
  obtain ⟨text, htext, hlen, hstored⟩ := stored_cut d hd
  obtain ⟨text', htext', hlen', hstored'⟩ := stored_cut d' hd'
  rw [hstored, hstored'] at hsum ⊢
  by_cases hn : n < 53
  · rw [List.take_append_of_le_length (by omega), List.take_append_of_le_length (by omega)]
      at hsum ⊢
    exact hshort text htext text' htext' n hn hsum
  · -- the same zeros stand behind both
    have hlong : ∀ xs : List UInt8, xs.length = 52 →
        (xs ++ List.replicate n 0).take n = xs ++ (List.replicate n 0).take (n - 52) := fun xs hxs => by
      rw [List.take_append, List.take_of_length_le (by omega), hxs]
    rw [hlong text hlen, hlong text' hlen'] at hsum ⊢
    have hsame := hshort text htext text' htext' 52 (by decide)
    rw [List.take_of_length_le (by omega), List.take_of_length_le (by omega)] at hsame
    rw [hsame (checksum_append_inj hsum)]

theorem readAppletFromSD_accepted_cut : ∃ c,
    (cardLts blank).run (inserted blank) cutRun = some c ∧
      c.accepted = [twoElfs 0] ∧ readAppletFromSD (some (card c.device)) = some (twoElfs 0) ∧
      ∀ elf ∈ readAppletFromSD (some (card c.device)), elf ∈ c.accepted := by
  have hread : readAppletFromSD (some (card cutCard.device)) = some (twoElfs 0) := by
    decide +kernel
  exact ⟨cutCard, run_cut, rfl, hread, readAppletFromSD_accepted blank (by decide) cutRun
    cutCard run_cut noCrcCollision_cut (card cutCard.device) rfl⟩

end SealedSky.TrustedOs
