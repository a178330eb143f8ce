import SealedSky.TrustedOs.AppletStore

/-!
# Booting (`docker/trusted_os/main.go`, `exec.go`)

`main` prefers the applet on the SD card to the embedded one, loads it, starts it and brings up USB
networking with the bridge. The ELF loader and the monitor are parameters that accept the embedded
applet; any error on the way ends in `log.Fatalf`, which halts the Trusted OS.

* `main_eq_running` — what a boot needs to come up.
* `boot_recovers_iff` — after an accepted upload the device comes back exactly when the card cannot
  be read or the uploaded applet loads: the embedded applet rescues a failed read, not a failed load.
-/
namespace SealedSky.TrustedOs

open BlockDev

/-- What is built into the image: the embedded applet and the loader, which takes it. -/
structure Platform where
  taELF : List UInt8
  imageLoad : List UInt8 → Option String
  monitorLoad : List UInt8 → Option String
  imageLoad_taELF : imageLoad taELF = none
  monitorLoad_taELF : monitorLoad taELF = none

/-- What a boot finds: the SD card, and how networking comes up. -/
structure Startup where
  sd : Option Sd
  ifaceErr : Option String
  sshErr : Option String
  bridgeErr : Option String

/-- A loaded applet. -/
structure ExecCtx where
  image : List UInt8
  deriving DecidableEq

/-- How a boot ends: halted, or with the applet started and the bridge listening. -/
inductive Boot where
  | fatal (msg : String)
  | running (ta : ExecCtx)
  deriving DecidableEq

/-- exec.go:34. -/
def loadApplet (p : Platform) (elf : List UInt8) : Except String ExecCtx :=
  match p.imageLoad elf with
  | some e => .error ("SM could not load applet ELF: " ++ e)
  | none =>
    match p.monitorLoad elf with
    | some e => .error ("SM could not load applet into monitor: " ++ e)
    | none => .ok ⟨elf⟩

/-- main.go:109, with the applet that runs beside it. -/
def startNetworking (env : Startup) (ta : ExecCtx) : Boot :=
  match env.ifaceErr with
  | some e => .fatal ("SM could not initialize USB networking: " ++ e)
  | none =>
    match env.sshErr with
    | some e => .fatal ("SM could not create SSH listener: " ++ e)
    | none =>
      match env.bridgeErr with
      | some e => .fatal ("SM could not create bridge listener: " ++ e)
      | none => .running ta

/-- main.go:79. -/
def main (p : Platform) (env : Startup) : Boot :=
  let appletBytes := (readAppletFromSD env.sd).getD p.taELF
  match loadApplet p appletBytes with
  | .error e => .fatal ("SM failed to load applet: " ++ e)
  | .ok ta => startNetworking env ta

/-- The loader takes an applet. -/
def Loads (p : Platform) (elf : List UInt8) : Prop :=
  p.imageLoad elf = none ∧ p.monitorLoad elf = none

def NetworkUp (env : Startup) : Prop :=
  env.ifaceErr = none ∧ env.sshErr = none ∧ env.bridgeErr = none

section
variable {p : Platform} {env : Startup} {elf : List UInt8} {ta : ExecCtx}

theorem loads_taELF (p : Platform) : Loads p p.taELF := ⟨p.imageLoad_taELF, p.monitorLoad_taELF⟩

theorem loadApplet_eq_ok : loadApplet p elf = .ok ta ↔ Loads p elf ∧ ta = ⟨elf⟩ := by
  unfold loadApplet Loads
  cases p.imageLoad elf with
  | some e => simp
  | none =>
    cases p.monitorLoad elf with
    | some e => simp
    | none => simp [eq_comm]

theorem startNetworking_eq_running {ta' : ExecCtx} :
    startNetworking env ta = .running ta' ↔ NetworkUp env ∧ ta' = ta := by
  unfold startNetworking NetworkUp
  cases env.ifaceErr with
  | some e => simp
  | none =>
    cases env.sshErr with
    | some e => simp
    | none =>
      cases env.bridgeErr with
      | some e => simp
      | none => simp [eq_comm]

/-- **What a boot needs to come up**: networking, and a loader that takes whatever was chosen. -/
theorem main_eq_running : main p env = .running ta ↔
    NetworkUp env ∧ Loads p ((readAppletFromSD env.sd).getD p.taELF) ∧
      ta = ⟨(readAppletFromSD env.sd).getD p.taELF⟩ := by
  unfold main
  simp only
  generalize (readAppletFromSD env.sd).getD p.taELF = chosen
  cases hload : loadApplet p chosen with
  | error e =>
    have hno : ¬ Loads p chosen := fun h => by
      rw [loadApplet_eq_ok.2 ⟨h, rfl⟩] at hload
      cases hload
    simp [hno]
  | ok ta' =>
    obtain ⟨hloads, rfl⟩ := loadApplet_eq_ok.1 hload
    simp only [startNetworking_eq_running, hloads, true_and]

/-! ## Recovery after an upload -/

/-- The boot finds the card as the upload left it, if it finds a card. -/
def SameCard (sd : Option Sd) (env : Startup) : Prop :=
  ∀ s ∈ sd, ∀ t ∈ env.sd, t.device = s.device

/-- The boot can read the whole applet off the card. -/
def CardReadable (env : Startup) (elf : List UInt8) : Prop := ∃ s ∈ env.sd, Readable s elf

/-- The boot ends with an applet running and the bridge listening: the embedded applet, when the
uploaded one cannot be loaded. -/
def Recovers (p : Platform) (env : Startup) (elf : List UInt8) : Prop :=
  ∃ ta, main p env = .running ta ∧ (¬ Loads p elf → ta.image = p.taELF)

theorem readAppletFromSD_after {sd sd' : Option Sd} (hw : writeAppletToSD sd elf = (none, sd'))
    (hcard : SameCard sd' env) (h : CardReadable env elf) : readAppletFromSD env.sd = some elf := by
  obtain ⟨hv, s, s', -, rfl, hblocks⟩ := writeAppletToSD_ok hw
  obtain ⟨t, ht, hread⟩ := h
  have hdevice := hcard s' rfl t ht
  rw [Option.mem_def.1 ht]
  exact readAppletFromSD_of_written hv (hdevice ▸ writeBlocks_holds hblocks) hread

theorem readAppletFromSD_after_unreadable {sd sd' : Option Sd}
    (hw : writeAppletToSD sd elf = (none, sd')) (hcard : SameCard sd' env)
    (h : ¬ CardReadable env elf) : readAppletFromSD env.sd = none := by
  obtain ⟨hv, s, s', -, rfl, hblocks⟩ := writeAppletToSD_ok hw
  cases ht : env.sd with
  | none => rfl
  | some t =>
    have hdevice := hcard s' rfl t ht
    exact readAppletFromSD_of_unreadable hv (hdevice ▸ writeBlocks_holds hblocks) fun hread =>
      h ⟨t, ht, hread⟩

/-- **After an accepted upload the device comes back** exactly when networking comes up and the card
cannot be read or the uploaded applet loads. -/
theorem boot_recovers_iff (p : Platform) {sd sd' : Option Sd}
    (hw : writeAppletToSD sd elf = (none, sd')) (hcard : SameCard sd' env) :
    Recovers p env elf ↔ NetworkUp env ∧ (¬ CardReadable env elf ∨ Loads p elf) := by
  unfold Recovers
  simp only [main_eq_running]
  by_cases hread : CardReadable env elf
  · rw [readAppletFromSD_after hw hcard hread]
    constructor
    · rintro ⟨ta, ⟨hnet, hloads, -⟩, -⟩
      exact ⟨hnet, Or.inr hloads⟩
    · rintro ⟨hnet, hno | hloads⟩
      · exact absurd hread hno
      · exact ⟨⟨elf⟩, ⟨hnet, hloads, rfl⟩, fun hno => absurd hloads hno⟩
  · rw [readAppletFromSD_after_unreadable hw hcard hread]
    constructor
    · rintro ⟨ta, ⟨hnet, -, -⟩, -⟩
      exact ⟨hnet, Or.inl hread⟩
    · rintro ⟨hnet, -⟩
      exact ⟨⟨p.taELF⟩, ⟨hnet, loads_taELF p, rfl⟩, fun _ => rfl⟩

end

/-! ## An upload that stays -/

/-- A working controller with a blank card. -/
def blankSd : Sd where
  detectErr := none
  blockSize := appletBlockSize
  readErr := fun _ => none
  writeErr := fun _ => none
  device := fun _ => ⟨List.replicate appletBlockSize 0, List.length_replicate⟩

/-- A platform whose loader takes the embedded applet only. -/
def strict : Platform where
  taELF := [0x7f, 0x45, 0x4c, 0x46, 1, 1, 1]
  imageLoad := fun elf =>
    if elf = [0x7f, 0x45, 0x4c, 0x46, 1, 1, 1] then none else some "unknown ELF version 0"
  monitorLoad := fun _ => none
  imageLoad_taELF := rfl
  monitorLoad_taELF := rfl

/-- A platform whose loader takes everything. -/
def lenient : Platform where
  taELF := [0x7f, 0x45, 0x4c, 0x46, 1, 1, 1]
  imageLoad := fun _ => none
  monitorLoad := fun _ => none
  imageLoad_taELF := rfl
  monitorLoad_taELF := rfl

/-- The boot after an upload to a blank card, with everything in order. -/
def afterUpload (elf : List UInt8) : Startup :=
  ⟨some (writeBlocks blankSd elf).2, none, none, none⟩

theorem upload_bareHeader :
    writeAppletToSD (some blankSd) bareHeader = (none, (afterUpload bareHeader).sd) := rfl

theorem sameCard_afterUpload (elf : List UInt8) : SameCard (afterUpload elf).sd (afterUpload elf) := by
  rintro s hs t ht
  rw [Option.mem_unique hs ht]

theorem boot_recovers_lenient : Recovers lenient (afterUpload bareHeader) bareHeader :=
  (boot_recovers_iff lenient upload_bareHeader (sameCard_afterUpload bareHeader)).2
    ⟨⟨rfl, rfl, rfl⟩, Or.inr ⟨rfl, rfl⟩⟩

/-- The header is accepted, stored, read back by every boot, and halts it. -/
theorem boot_halts :
    writeAppletToSD (some blankSd) bareHeader = (none, (afterUpload bareHeader).sd) ∧
      Loads strict strict.taELF ∧
      main strict (afterUpload bareHeader) =
        .fatal "SM failed to load applet: SM could not load applet ELF: unknown ELF version 0" ∧
      ¬ Recovers strict (afterUpload bareHeader) bareHeader := by
  have hmain : main strict (afterUpload bareHeader) =
      .fatal "SM failed to load applet: SM could not load applet ELF: unknown ELF version 0" := by
    have hread : readAppletFromSD (afterUpload bareHeader).sd = some bareHeader :=
      readAppletFromSD_after upload_bareHeader (sameCard_afterUpload bareHeader)
        ⟨_, rfl, rfl, rfl, rfl, fun _ _ => rfl⟩
    unfold main
    rw [hread]
    decide
  refine ⟨upload_bareHeader, loads_taELF strict, hmain, ?_⟩
  rintro ⟨ta, hrun, -⟩
  rw [hmain] at hrun
  cases hrun

end SealedSky.TrustedOs
