import SealedSky.TrustedOs.Boot
import SealedSky.TrustedOs.Bridge
import SealedSky.TrustedOs.Uploads

/-!
# The life of a device (`docker/trusted_os/main.go`, `bridge.go`, `applet_store.go`)

What becomes of the card and of what runs, over any number of power cycles: boots through `main` with
whatever the controller answers, any number of connections at a time, uploads that write their blocks
in between each other, writes that the controller refuses, and power losses before any block. A
connection that is no upload touches neither the card nor what runs.

* `run_upload` — a connection that is alone is `handleBridgeConn`.
* `runs_accepted` — what runs is the embedded applet or one whose upload went through.
* `up_again_iff` — after an upload that nothing disturbed, a device that can read its card comes up
  again if and only if the loader takes what was uploaded.
-/
namespace SealedSky.TrustedOs

open BlockDev Crc32 Utf8

/-! ## The device -/

/-- Nothing runs until the next boot, or nothing runs since `log.Fatalf`, or an applet does. -/
inductive Phase where
  | off
  | halted
  | up (ta : ExecCtx)
  deriving DecidableEq

def Phase.isUp : Phase → Bool
  | .up _ => true
  | _ => false

/-- The SD controller as one call finds it: `Sd` without the card that is in it. -/
structure Controller where
  present : Bool
  detectErr : Option String
  blockSize : Nat
  readErr : Nat → Option String

/-- A card in the controller. Writes are steps of their own. -/
def Controller.sd (c : Controller) (device : Device appletBlockSize) : Option Sd :=
  if c.present then some ⟨c.detectErr, c.blockSize, c.readErr, fun _ => none, device⟩ else none

/-- A controller that answers everything. -/
def fine : Controller := ⟨true, none, appletBlockSize, fun _ => none⟩

/-- Where the handler of an upload is: before the next block of `writeAppletToSD`, or behind all of
them, with the reply and the reset to come. -/
inductive Conn where
  | writing (u : Upload)
  | stored

structure Life where
  device : Device appletBlockSize
  phase : Phase
  /-- The uploads under way. -/
  conns : Nat → Option Conn
  /-- The uploads that went through. -/
  accepted : List (List UInt8)
  /-- History: everything the card has held, as it is now included. -/
  held : List (Device appletBlockSize)

inductive LifeAct where
  /-- A boot, with what becomes of networking. -/
  | boot (answers : Controller) (ifaceErr sshErr bridgeErr : Option String)
  /-- Connection `i`: the bytes of the host. -/
  | connect (i : Nat) (stream : List UInt8) (answers : Controller)
  /-- The next block of upload `i`. -/
  | block (i : Nat)
  /-- The controller refuses it: `writeAppletToSD` returns an error. -/
  | blockErr (i : Nat)
  /-- `triggerReset()` (bridge.go:75). -/
  | reset (i : Nat)
  | powerLoss

def bootPhase : Boot → Phase
  | .fatal _ => .halted
  | .running ta => .up ta

/-- The upload that a stream begins: it comes to the first block where nothing but a block could fail
it. -/
def begun? (sd : Option Sd) (stream : List UInt8) : Option (List UInt8) :=
  (uploaded? stream).filter fun elf => (writeAppletToSD sd elf).1.isNone

namespace Life

def writing? (s : Life) (i : Nat) : Option Upload :=
  match s.conns i with
  | some (.writing u) => some u
  | _ => none

def stored? (s : Life) (i : Nat) : Bool :=
  match s.conns i with
  | some .stored => true
  | _ => false

/-- The card as an upload sees it that is at `u`. -/
def view (s : Life) (u : Upload) : Card := ⟨s.device, some u, s.accepted, s.held⟩

def connOf : Option Upload → Conn
  | some u => .writing u
  | none => .stored

/-- What upload `i` has made of the card. -/
def put (s : Life) (i : Nat) (c : Card) : Life :=
  { s with
    device := c.device
    conns := Function.update s.conns i (some (connOf c.upload))
    accepted := c.accepted
    held := c.held }

/-- Nothing is left but the card. -/
def down (s : Life) : Life := { s with phase := .off, conns := fun _ => none }

end Life

def lifeStep (p : Platform) (s : Life) : LifeAct → Option Life
  | .boot answers ifaceErr sshErr bridgeErr =>
    if s.phase = .off then
      some { s with
        phase := bootPhase (main p ⟨answers.sd s.device, ifaceErr, sshErr, bridgeErr⟩) }
    else none
  | .connect i stream answers =>
    if s.phase.isUp ∧ (s.conns i).isNone then
      some { s with
        conns := Function.update s.conns i
          ((begun? (answers.sd s.device) stream).map fun elf => .writing ⟨elf, 0⟩) }
    else none
  | .block i => (s.writing? i).map fun u => s.put i (writeNext (s.view u) u)
  | .blockErr i =>
    (s.writing? i).map fun _ => { s with conns := Function.update s.conns i none }
  | .reset i => if s.stored? i then some s.down else none
  | .powerLoss => some s.down

/-- A device that has not been switched on: `first` is what has been installed on its card. -/
def unborn (device : Device appletBlockSize) (first : List (List UInt8)) : Life :=
  ⟨device, .off, fun _ => none, first, [device]⟩

def lifeLts (p : Platform) (device : Device appletBlockSize) (first : List (List UInt8)) :
    Lts Life LifeAct := ⟨unborn device first, lifeStep p⟩

section
variable {p : Platform} {s s' : Life} {i : Nat} {u : Upload}

@[simp] theorem writing?_eq_some : s.writing? i = some u ↔ s.conns i = some (.writing u) := by
  unfold Life.writing?
  cases s.conns i with
  | none => simp
  | some c => cases c <;> simp

theorem stored?_eq_true : s.stored? i = true ↔ s.conns i = some .stored := by
  unfold Life.stored?
  cases s.conns i with
  | none => simp
  | some c => cases c <;> simp

theorem begun?_eq_some {sd : Option Sd} {stream elf : List UInt8} :
    begun? sd stream = some elf ↔ uploaded? stream = some elf ∧ (writeAppletToSD sd elf).1 = none := by
  simp [begun?, Option.filter_eq_some_iff]

theorem begun?_valid {sd : Option Sd} {stream elf : List UInt8} (h : begun? sd stream = some elf) :
    validateApplet elf = none := (writeAppletToSD_ok (Prod.ext (begun?_eq_some.1 h).2 rfl)).1

/-! ## What a step does -/

/-- The steps, each with what let it happen. A block is one of the body, or the header behind them. -/
inductive Lived (p : Platform) (s : Life) : LifeAct → Life → Prop
  | boot {answers : Controller} {ifaceErr sshErr bridgeErr : Option String} (hoff : s.phase = .off) :
      Lived p s (.boot answers ifaceErr sshErr bridgeErr) { s with
        phase := bootPhase (main p ⟨answers.sd s.device, ifaceErr, sshErr, bridgeErr⟩) }
  | connect {i : Nat} {stream : List UInt8} {answers : Controller} (hup : s.phase.isUp) :
      Lived p s (.connect i stream answers) { s with
        conns := Function.update s.conns i
          ((begun? (answers.sd s.device) stream).map fun elf => .writing ⟨elf, 0⟩) }
  | body {i : Nat} {u : Upload} {v : Block appletBlockSize} (hu : s.conns i = some (.writing u))
      (hv : bodyBlock u.elf u.written = some v) :
      Lived p s (.block i) { s with
        device := s.device.set (appletBodyLBA + u.written) v
        conns := Function.update s.conns i (some (.writing { u with written := u.written + 1 }))
        held := s.device.set (appletBodyLBA + u.written) v :: s.held }
  | header {i : Nat} {u : Upload} (hu : s.conns i = some (.writing u))
      (hnone : bodyBlock u.elf u.written = none) :
      Lived p s (.block i) { s with
        device := s.device.set appletHeaderLBA (headerBlock u.elf)
        conns := Function.update s.conns i (some .stored)
        accepted := s.accepted ++ [u.elf]
        held := s.device.set appletHeaderLBA (headerBlock u.elf) :: s.held }
  | refused {i : Nat} {u : Upload} (hu : s.conns i = some (.writing u)) :
      Lived p s (.blockErr i) { s with conns := Function.update s.conns i none }
  | reset {i : Nat} (hstored : s.conns i = some .stored) : Lived p s (.reset i) s.down
  | powerLoss : Lived p s .powerLoss s.down

theorem lived_of_step {a : LifeAct} (h : lifeStep p s a = some s') : Lived p s a s' := by
  cases a with
  | boot answers ifaceErr sshErr bridgeErr =>
    simp only [lifeStep] at h
    split_ifs at h with hoff
    cases h
    exact .boot hoff
  | connect i stream answers =>
    simp only [lifeStep] at h
    split_ifs at h with hup
    cases h
    exact .connect hup.1
  | block i =>
    obtain ⟨u, hu, rfl⟩ := Option.map_eq_some_iff.1 h
    have hu := writing?_eq_some.1 hu
    cases hnext : bodyBlock u.elf u.written with
    | some v =>
      have hbody := Lived.body (p := p) hu hnext
      simpa only [Life.put, Life.view, Life.connOf, writeNext, hnext] using hbody
    | none =>
      have hheader := Lived.header (p := p) hu hnext
      simpa only [Life.put, Life.view, Life.connOf, writeNext, hnext] using hheader
  | blockErr i =>
    obtain ⟨u, hu, rfl⟩ := Option.map_eq_some_iff.1 h
    exact .refused (writing?_eq_some.1 hu)
  | reset i =>
    simp only [lifeStep] at h
    split_ifs at h with hstored
    cases h
    exact .reset (stored?_eq_true.1 hstored)
  | powerLoss =>
    cases h
    exact .powerLoss

/-! ## A connection that is alone -/

/-- The blocks that one upload writes are those of a card by itself. -/
theorem run_put (p : Platform) {device : Device appletBlockSize} {first : List (List UInt8)} (s : Life)
    (i : Nat) {n : Nat} : ∀ {c c' : Card},
      (cardLts device).run c (List.replicate n .block) = some c' →
      (lifeLts p device first).run (s.put i c) (List.replicate n (.block i)) = some (s.put i c') := by
  induction n with
  | zero =>
    intro c c' h
    rw [List.replicate_zero, Lts.run_nil, Option.some.injEq] at h
    rw [h]
    rfl
  | succ n ih =>
    intro c c' h
    obtain ⟨m, hstep, hrun⟩ := (Lts.run_cons _).1 h
    obtain ⟨u, hu, rfl⟩ := Option.map_eq_some_iff.1 hstep
    have hwriting : (s.put i c).writing? i = some u := by
      simp [Life.put, Life.connOf, hu]
    have hview : (s.put i c).view u = c := by
      obtain ⟨d, up, acc, held⟩ := c
      cases hu
      rfl
    have hput : ∀ c'', (s.put i c).put i c'' = s.put i c'' := fun c'' => by
      simp [Life.put]
    have hblock : lifeStep p (s.put i c) (.block i) = some (s.put i (writeNext c u)) := by
      simp [lifeStep, hwriting, hview, hput]
    exact (Lts.run_cons _).2 ⟨_, hblock, ih hrun⟩

/-- What a controller that takes every block makes of an upload. -/
theorem writeAppletToSD_answers {c : Controller} {device : Device appletBlockSize} {elf : List UInt8}
    (h : (writeAppletToSD (c.sd device) elf).1 = none) :
    (writeAppletToSD (c.sd device) elf).2 = c.sd (writeHeader (writeBody device elf) elf) := by
  obtain ⟨-, sd, sd', hsd, hsd', hblocks⟩ := writeAppletToSD_ok (Prod.ext h rfl)
  unfold Controller.sd at hsd
  split_ifs at hsd with hpresent
  cases hsd
  rw [writeBlocks_taken elf fun _ => rfl] at hblocks
  obtain ⟨-, rfl⟩ := Prod.mk.inj hblocks
  refine hsd'.trans ?_
  rw [Controller.sd, if_pos hpresent]

/-- **A connection that is alone does what `handleBridgeConn` does**: where the bridge stores an
upload and resets, the steps of its handler do, and the card is the same. -/
theorem run_upload {σ : Type} {callApplet : σ → AppletCall → Option (σ × String)} {applet : σ}
    {device : Device appletBlockSize} {first : List (List UInt8)} {answers : Controller}
    {stream elf : List UInt8} {out : Handled σ} (hup : s.phase.isUp) (hfree : s.conns i = none)
    (hstream : uploaded? stream = some elf)
    (hconn : handleBridgeConn callApplet ⟨applet, answers.sd s.device⟩ stream = some out)
    (hreset : out.reset = true) : ∃ s', (lifeLts p device first).run s
        (.connect i stream answers :: (List.replicate (bodyBlocks elf + 1) (.block i) ++ [.reset i])) =
          some s' ∧
      s'.phase = .off ∧ s'.accepted = s.accepted ++ [elf] ∧
      out.armory.sd = answers.sd s'.device := by
  have hcard := handleBridgeConn_card hconn
  rw [hstream] at hcard
  obtain ⟨harmory, hwrite⟩ := hcard
  rw [hreset, eq_comm, Option.isNone_iff_eq_none] at hwrite
  have hbegun : begun? (answers.sd s.device) stream = some elf := begun?_eq_some.2 ⟨hstream, hwrite⟩
  have hconnect : lifeStep p s (.connect i stream answers) =
      some (s.put i ⟨s.device, some ⟨elf, 0⟩, s.accepted, s.held⟩) := by
    simp [lifeStep, hup, hfree, hbegun, Life.put, Life.connOf]
  obtain ⟨c, hblocks, hdevice, haccepted, hdone⟩ := run_blocks device elf
    (c := ⟨s.device, some ⟨elf, 0⟩, s.accepted, s.held⟩) rfl rfl
  rw [List.drop_zero, blocksOf_length] at hblocks
  have hstored : (s.put i c).stored? i = true := stored?_eq_true.2 (by
    simp [Life.put, Life.connOf, hdone])
  have hdown : lifeStep p (s.put i c) (.reset i) = some (s.put i c).down := by
    simp only [lifeStep, hstored, if_true]
  refine ⟨(s.put i c).down, (Lts.run_cons _).2 ⟨_, hconnect,
    Lts.run_concat _ (run_put p s i hblocks) hdown⟩, rfl, haccepted, ?_⟩
  rw [harmory]
  exact (writeAppletToSD_answers hwrite).trans (congrArg answers.sd hdevice.symm)

end

/-! ## What runs -/

/-- The header on a card, if there is one, is that of one of these applets. -/
def HeaderOf (device : Device appletBlockSize) (elfs : List (List UInt8)) : Prop :=
  parseHeader (device appletHeaderLBA).bytes = none ∨
    ∃ elf ∈ elfs, validateApplet elf = none ∧ device appletHeaderLBA = headerBlock elf

/-- Nothing that was on the card behind the header has the checksum of an upload and is another text
of its length. -/
def ChecksumTells (s : Life) : Prop :=
  ∀ elf ∈ s.accepted, ∀ d ∈ s.held,
    checksum (stored d elf.length) = checksum elf → stored d elf.length = elf

/-- The applet is as long as an upload and has its checksum, and was on the card. -/
def Resembles (s : Life) (image : List UInt8) : Prop :=
  ∃ elf ∈ s.accepted, ∃ d ∈ s.held, image = stored d elf.length ∧ checksum image = checksum elf

/-- The run holds a connection that brings this applet. -/
def Sent (as : List LifeAct) (elf : List UInt8) : Prop :=
  ∃ i stream answers, .connect i stream answers ∈ as ∧ uploaded? stream = some elf

section
variable {p : Platform} {s s' : Life} {device : Device appletBlockSize}
  {first : List (List UInt8)}

theorem Resembles.accepted {image : List UInt8} (h : Resembles s image) (htells : ChecksumTells s) :
    image ∈ s.accepted := by
  obtain ⟨elf, helf, d, hd, rfl, hsum⟩ := h
  rw [htells elf helf d hd hsum]
  exact helf

/-- What is read resembles the upload whose header stands on the card. -/
theorem resembles_of_read (hheader : HeaderOf s.device s.accepted) (hnow : s.device ∈ s.held)
    {answers : Controller} {image : List UInt8}
    (h : readAppletFromSD (answers.sd s.device) = some image) : Resembles s image := by
  unfold Controller.sd at h
  split_ifs at h
  · rcases hheader with hno | ⟨elf, helf, hv, hblock⟩
    · obtain ⟨length, hparse, -⟩ := readAppletFromSD_eq_some h
      rw [hno] at hparse
      cases hparse
    · obtain ⟨hstored, hsum⟩ := read_behind_header hv hblock h
      exact ⟨elf, helf, s.device, hnow, hstored, hsum⟩
  · cases h

structure Sound (p : Platform) (s : Life) : Prop where
  header : HeaderOf s.device s.accepted
  now : s.device ∈ s.held
  valid : ∀ i u, s.conns i = some (.writing u) → validateApplet u.elf = none
  running : ∀ ta, s.phase = .up ta →
    Loads p ta.image ∧ (ta.image = p.taELF ∨ Resembles s ta.image)

theorem sound_unborn (h : HeaderOf device first) : Sound p (unborn device first) where
  header := h
  now := List.mem_singleton_self _
  valid := by simp [unborn]
  running := by simp [unborn]

/-- What runs stays what it is while the card is written. -/
theorem Sound.grow (h : Sound p s) (hphase : s'.phase = s.phase)
    (hacc : ∀ elf ∈ s.accepted, elf ∈ s'.accepted) (hheld : ∀ d ∈ s.held, d ∈ s'.held) :
    ∀ ta, s'.phase = .up ta → Loads p ta.image ∧ (ta.image = p.taELF ∨ Resembles s' ta.image) := by
  intro ta hup
  obtain ⟨hloads, himage⟩ := h.running ta (hphase ▸ hup)
  refine ⟨hloads, himage.imp_right ?_⟩
  rintro ⟨elf, helf, d, hd, hsame⟩
  exact ⟨elf, hacc elf helf, d, hheld d hd, hsame⟩

theorem writing_update {conns : Nat → Option Conn} {i j : Nat} {c : Option Conn} {u : Upload}
    (h : Function.update conns i c j = some (.writing u)) :
    (j = i ∧ c = some (.writing u)) ∨ conns j = some (.writing u) := by
  by_cases hj : j = i
  · subst hj
    rw [Function.update_self] at h
    exact Or.inl ⟨rfl, h⟩
  · rw [Function.update_of_ne hj] at h
    exact Or.inr h

theorem step_sound {a : LifeAct} (hs : Sound p s) (h : lifeStep p s a = some s') : Sound p s' := by
  cases lived_of_step h with
  | @boot answers ifaceErr sshErr bridgeErr hoff =>
    refine ⟨hs.header, hs.now, hs.valid, fun ta hup => ?_⟩
    cases hmain : main p ⟨answers.sd s.device, ifaceErr, sshErr, bridgeErr⟩ with
    | fatal msg =>
      simp only [hmain, bootPhase] at hup
      cases hup
    | running ta' =>
      simp only [hmain, bootPhase, Phase.up.injEq] at hup
      subst hup
      obtain ⟨-, hloads, rfl⟩ := main_eq_running.1 hmain
      refine ⟨hloads, ?_⟩
      cases hread : readAppletFromSD (answers.sd s.device) with
      | none => exact Or.inl rfl
      | some image => exact Or.inr (resembles_of_read hs.header hs.now hread)
  | connect hup =>
    refine ⟨hs.header, hs.now, fun j u hj => ?_, hs.running⟩
    rcases writing_update hj with ⟨rfl, hbegun⟩ | hj
    · obtain ⟨elf, helf, hu⟩ := Option.map_eq_some_iff.1 hbegun
      cases hu
      exact begun?_valid helf
    · exact hs.valid j u hj
  | @body i u v hu hv =>
    refine ⟨?_, List.mem_cons_self, fun j w hj => ?_,
      hs.grow rfl (fun _ h => h) fun d hd => List.mem_cons_of_mem _ hd⟩
    · -- the body is written beside the header
      have hheader : s.device.set (appletBodyLBA + u.written) v appletHeaderLBA =
          s.device appletHeaderLBA := set_other (by rw [appletBodyLBA]; omega) _ _
      simpa only [HeaderOf, hheader] using hs.header
    · rcases writing_update hj with ⟨rfl, hw⟩ | hj
      · cases hw
        exact hs.valid j u hu
      · exact hs.valid j w hj
  | @header i u hu hnone =>
    have hheader := set_same s.device appletHeaderLBA (headerBlock u.elf)
    refine ⟨Or.inr ⟨u.elf, List.mem_append_right _ (List.mem_singleton_self _), hs.valid i u hu,
      hheader⟩, List.mem_cons_self, fun j w hj => ?_,
      hs.grow rfl (fun _ h => List.mem_append_left _ h) fun d hd => List.mem_cons_of_mem _ hd⟩
    rcases writing_update hj with ⟨-, hw⟩ | hj
    · cases hw
    · exact hs.valid j w hj
  | refused hu =>
    refine ⟨hs.header, hs.now, fun j w hj => ?_, hs.running⟩
    rcases writing_update hj with ⟨-, hw⟩ | hj
    · cases hw
    · exact hs.valid j w hj
  | reset hstored => exact ⟨hs.header, hs.now, by simp [Life.down], by simp [Life.down]⟩
  | powerLoss => exact ⟨hs.header, hs.now, by simp [Life.down], by simp [Life.down]⟩

/-- Every applet under way or accepted was on the card at first, or a client sent it. -/
def FromClients (first : List (List UInt8)) (as : List LifeAct) (s : Life) : Prop :=
  (∀ elf ∈ s.accepted, elf ∈ first ∨ Sent as elf) ∧
    ∀ i u, s.conns i = some (.writing u) → Sent as u.elf

theorem Sent.append {as : List LifeAct} {elf : List UInt8} (h : Sent as elf) (a : LifeAct) :
    Sent (as ++ [a]) elf := by
  obtain ⟨i, stream, answers, hmem, helf⟩ := h
  exact ⟨i, stream, answers, List.mem_append_left _ hmem, helf⟩

theorem step_fromClients {as : List LifeAct} {a : LifeAct} (hs : FromClients first as s)
    (h : lifeStep p s a = some s') : FromClients first (as ++ [a]) s' := by
  obtain ⟨hacc, hunder⟩ := hs
  have hacc' : ∀ elf ∈ s.accepted, elf ∈ first ∨ Sent (as ++ [a]) elf := fun elf helf =>
    (hacc elf helf).imp_right fun hsent => hsent.append a
  have hunder' : ∀ i u, s.conns i = some (.writing u) → Sent (as ++ [a]) u.elf := fun i u hu =>
    (hunder i u hu).append a
  cases lived_of_step h with
  | boot hoff => exact ⟨hacc', hunder'⟩
  | @connect i stream answers hup =>
    refine ⟨hacc', fun j u hj => ?_⟩
    rcases writing_update hj with ⟨rfl, hbegun⟩ | hj
    · obtain ⟨elf, helf, hu⟩ := Option.map_eq_some_iff.1 hbegun
      cases hu
      exact ⟨j, stream, answers, by simp, (begun?_eq_some.1 helf).1⟩
    · exact hunder' j u hj
  | @body i u v hu hv =>
    refine ⟨hacc', fun j w hj => ?_⟩
    rcases writing_update hj with ⟨rfl, hw⟩ | hj
    · cases hw
      exact hunder' j u hu
    · exact hunder' j w hj
  | @header i u hu hnone =>
    refine ⟨fun elf helf => ?_, fun j w hj => ?_⟩
    · rcases List.mem_append.1 helf with helf | helf
      · exact hacc' elf helf
      · rw [List.mem_singleton.1 helf]
        exact Or.inr (hunder' i u hu)
    · rcases writing_update hj with ⟨-, hw⟩ | hj
      · cases hw
      · exact hunder' j w hj
  | refused hu =>
    refine ⟨hacc', fun j w hj => ?_⟩
    rcases writing_update hj with ⟨-, hw⟩ | hj
    · cases hw
    · exact hunder' j w hj
  | reset hstored => exact ⟨hacc', by simp [Life.down]⟩
  | powerLoss => exact ⟨hacc', by simp [Life.down]⟩

theorem run_life_sound {as : List LifeAct} (hfirst : HeaderOf device first)
    (hrun : (lifeLts p device first).run (unborn device first) as = some s) : Sound p s :=
  Lts.run_inv (P := Sound p) (fun _ _ _ hs hst => step_sound hs hst) (sound_unborn hfirst) hrun

theorem run_fromClients {as : List LifeAct}
    (hrun : (lifeLts p device first).run (unborn device first) as = some s) :
    FromClients first as s := by
  refine Lts.run_inv_history (S := lifeLts p device first) (P := FromClients first) ?_ ?_ hrun
  · exact ⟨fun elf helf => Or.inl helf, by simp [unborn]⟩
  · intro as m a t _ hs hst
    exact step_fromClients hs hst

/-- **What runs has been uploaded.** Whatever the clients send, however their uploads mix, whatever
block a power loss or the controller stops them at and whatever a boot can read: what runs is taken by
the loader and is the embedded applet or one whose upload went through, and so is what a read of the
card would return; and it is a client that sent it. -/
theorem runs_accepted (p : Platform) (device : Device appletBlockSize) (first : List (List UInt8))
    (hfirst : HeaderOf device first) (as : List LifeAct) (s : Life)
    (hrun : (lifeLts p device first).run (unborn device first) as = some s)
    (htells : ChecksumTells s) :
    (∀ ta, s.phase = .up ta →
      Loads p ta.image ∧ (ta.image = p.taELF ∨ ta.image ∈ s.accepted)) ∧
    (∀ answers : Controller, ∀ elf ∈ readAppletFromSD (answers.sd s.device), elf ∈ s.accepted) ∧
    ∀ elf ∈ s.accepted, elf ∈ first ∨ Sent as elf := by
  have hsound := run_life_sound hfirst hrun
  refine ⟨fun ta hup => ?_, fun answers elf helf => ?_, (run_fromClients hrun).1⟩
  · obtain ⟨hloads, himage⟩ := hsound.running ta hup
    exact ⟨hloads, himage.imp_right fun h => h.accepted htells⟩
  · exact (resembles_of_read hsound.header hsound.now helf).accepted htells

end

/-! ## Two uploads and a power loss -/

/-- A line that uploads, its input as it is written. -/
def uploadOf (input : String) : List UInt8 :=
  123 :: 34 :: (bytes "Method" ++ 34 :: 58 :: 34 :: (bytes "__upload" ++ 34 :: 44 :: 34 ::
    (bytes "Input" ++ 34 :: 58 :: 34 :: (bytes input ++ [34, 125]))))

theorem uploaded?_uploadOf {input : String}
    (h : ∀ c ∈ input.toList, 0x20 ≤ c.toNat ∧ c ≠ '"' ∧ c ≠ '\\') :
    uploaded? (uploadOf input) = (decodeString (bytes input)).toOption := by
  have hread := decodeRequest_two (m := "__upload") (spells_plain (by decide)) (spells_plain h) []
  rw [uploaded?, uploadOf, hread]
  rfl

/-- The lines that upload `twoElfs`. -/
def twoLines (i : Nat) : List UInt8 :=
  uploadOf ("f0VMRgEAAAAAAAAAAAAAAAAAKAAAAAAAAAAAAAAAAAAAAAAAAAAAAAAAAAAAAAAAAAAA" ++
    if i = 0 then "AA==" else "AQ==")

theorem uploaded?_twoLines (i : Nat) : uploaded? (twoLines i) = some (twoElfs i) := by
  unfold twoLines twoElfs
  split
  · rw [uploaded?_uploadOf (by decide)]
    decide +kernel
  · rw [uploaded?_uploadOf (by decide)]
    decide +kernel

theorem begun?_twoLines (device : Device appletBlockSize) (i : Nat) :
    begun? (fine.sd device) (twoLines i) = some (twoElfs i) := by
  obtain ⟨device', hwrite, -⟩ := writeAppletToSD_card device (twoElfs i)
  refine begun?_eq_some.2 ⟨uploaded?_twoLines i, ?_⟩
  exact (congrArg Prod.fst hwrite).trans (twoElfs_valid i)

theorem bodyBlock_twoElfs (i : Nat) :
    bodyBlock (twoElfs i) 0 = some (twoBody i) ∧ bodyBlock (twoElfs i) 1 = none := by
  unfold twoBody twoElfs
  split
  · exact ⟨rfl, rfl⟩
  · exact ⟨rfl, rfl⟩

/-- Upload 1 is cut behind its body; the next two write in between each other. -/
def mixedRun : List LifeAct :=
  [.boot fine none none none, .connect 0 (twoLines 1) fine, .block 0, .powerLoss,
    .boot fine none none none, .connect 1 (twoLines 0) fine, .connect 2 (twoLines 1) fine,
    .block 2, .block 1, .block 1, .reset 1, .boot fine none none none]

/-- What the card has held in it. -/
def mixedHeld : List (Device appletBlockSize) :=
  let torn := withBody blank 1
  let body := withBody (withBody torn 1) 0
  [body.set appletHeaderLBA (headerBlock (twoElfs 0)), body, withBody torn 1, torn, blank]

theorem main_fine (p : Platform) {device : Device appletBlockSize}
    (h : Loads p ((readAppletFromSD (fine.sd device)).getD p.taELF)) :
    main p ⟨fine.sd device, none, none, none⟩ =
      .running ⟨(readAppletFromSD (fine.sd device)).getD p.taELF⟩ :=
  main_eq_running.2 ⟨⟨rfl, rfl, rfl⟩, h, rfl⟩

theorem run_mixed : ∃ s, (lifeLts lenient blank []).run (unborn blank []) mixedRun = some s ∧
    s.accepted = [twoElfs 0] ∧ s.held = mixedHeld ∧ s.phase = .up ⟨twoElfs 0⟩ := by
  have hread : readAppletFromSD (fine.sd ((withBody (withBody (withBody blank 1) 1) 0).set
      appletHeaderLBA (headerBlock (twoElfs 0)))) = some (twoElfs 0) := by
    decide +kernel
  have hmain : ∀ device, main lenient ⟨fine.sd device, none, none, none⟩ =
      .running ⟨(readAppletFromSD (fine.sd device)).getD lenient.taELF⟩ := fun device =>
    main_fine lenient ⟨rfl, rfl⟩
  simp [mixedRun, Lts.run, lifeLts, lifeStep, unborn, hmain, bootPhase, Phase.isUp, begun?_twoLines,
    Life.writing?, Life.stored?, Life.put, Life.view, Life.connOf, writeNext, bodyBlock_twoElfs,
    Life.down, Function.update]
  exact ⟨rfl, congrArg (Option.getD · lenient.taELF) hread⟩

theorem checksumTells_mixed {s : Life} (hacc : s.accepted = [twoElfs 0]) (hheld : s.held = mixedHeld) :
    ChecksumTells s := by
  have hall : ∀ d ∈ mixedHeld, checksum (stored d (twoElfs 0).length) = checksum (twoElfs 0) →
      stored d (twoElfs 0).length = twoElfs 0 := by
    decide +kernel
  intro elf helf d hd
  rw [hacc, List.mem_singleton] at helf
  subst helf
  exact hall d (hheld ▸ hd)

theorem headerOf_blank : HeaderOf blank [] := Or.inl (by decide)

theorem runs_accepted_mixed : ∃ s,
    (lifeLts lenient blank []).run (unborn blank []) mixedRun = some s ∧
      s.phase = .up ⟨twoElfs 0⟩ ∧ s.accepted = [twoElfs 0] ∧
      (∀ ta, s.phase = .up ta →
        Loads lenient ta.image ∧ (ta.image = lenient.taELF ∨ ta.image ∈ s.accepted)) ∧
      (∀ answers : Controller, ∀ elf ∈ readAppletFromSD (answers.sd s.device), elf ∈ s.accepted) ∧
      ∀ elf ∈ s.accepted, elf ∈ ([] : List (List UInt8)) ∨ Sent mixedRun elf := by
  obtain ⟨s, hrun, hacc, hheld, hphase⟩ := run_mixed
  exact ⟨s, hrun, hphase, hacc, runs_accepted lenient blank [] headerOf_blank mixedRun s hrun
    (checksumTells_mixed hacc hheld)⟩

/-! ## After an upload that nothing disturbs -/

/-- The action writes no block for another upload than `i` and begins no other upload as `i`. -/
def Spares (i : Nat) : LifeAct → Prop
  | .connect j _ _ => j ≠ i
  | .block j => j = i
  | _ => True

/-- A boot that reads all of an applet. -/
def Reads (elf : List UInt8) (s : Life) : LifeAct → Prop
  | .boot answers ifaceErr sshErr bridgeErr =>
    CardReadable ⟨answers.sd s.device, ifaceErr, sshErr, bridgeErr⟩ elf
  | _ => True

section
variable {p : Platform} {s s' : Life} {device : Device appletBlockSize}
  {first : List (List UInt8)} {i : Nat} {elf : List UInt8}

/-- What upload `i` has written is on the card. -/
structure Undisturbed (i : Nat) (elf : List UInt8) (s : Life) : Prop where
  valid : s.conns i ≠ none → validateApplet elf = none
  writing : ∀ u, s.conns i = some (.writing u) → u.elf = elf ∧
    ∀ j < u.written, ∀ v ∈ bodyBlock elf j, s.device (appletBodyLBA + j) = v
  stored : s.conns i = some .stored →
    s.device appletHeaderLBA = headerBlock elf ∧ HasBody s.device elf

theorem Undisturbed.elsewhere (h : Undisturbed i elf s) (hdevice : s'.device = s.device)
    (hconn : s'.conns i = s.conns i ∨ s'.conns i = none) : Undisturbed i elf s' := by
  rcases hconn with hconn | hconn
  · constructor
    · rw [hconn]
      exact h.valid
    · rw [hconn, hdevice]
      exact h.writing
    · rw [hconn, hdevice]
      exact h.stored
  · exact ⟨absurd hconn, by simp [hconn], by simp [hconn]⟩

/-- A connection that begins the upload. -/
theorem undisturbed_begun {sd : Option Sd} {stream : List UInt8} {conns : Nat → Option Conn}
    (hstream : uploaded? stream = some elf) (hconns : s.conns = Function.update conns i
      ((begun? sd stream).map fun elf => .writing ⟨elf, 0⟩)) : Undisturbed i elf s := by
  have hconn : s.conns i = (begun? sd stream).map fun elf => .writing ⟨elf, 0⟩ := by
    rw [hconns, Function.update_self]
  cases hbegun : begun? sd stream with
  | none =>
    rw [hbegun, Option.map_none] at hconn
    exact ⟨absurd hconn, by simp [hconn], by simp [hconn]⟩
  | some elf' =>
    obtain rfl : elf' = elf := Option.some.inj ((begun?_eq_some.1 hbegun).1.symm.trans hstream)
    rw [hbegun, Option.map_some] at hconn
    exact ⟨fun _ => begun?_valid hbegun, by simp [hconn], by simp [hconn]⟩

theorem step_undisturbed {a : LifeAct} (hs : Undisturbed i elf s) (hspares : Spares i a)
    (h : lifeStep p s a = some s') : Undisturbed i elf s' := by
  cases lived_of_step h with
  | boot hoff => exact hs.elsewhere rfl (Or.inl rfl)
  | connect hup => exact hs.elsewhere rfl (Or.inl (Function.update_of_ne (Ne.symm hspares) _ _))
  | @refused j u hu =>
    by_cases hj : j = i
    · subst hj
      exact hs.elsewhere rfl (Or.inr (Function.update_self _ _ _))
    · exact hs.elsewhere rfl (Or.inl (Function.update_of_ne (Ne.symm hj) _ _))
  | reset hstored => exact hs.elsewhere rfl (Or.inr rfl)
  | powerLoss => exact hs.elsewhere rfl (Or.inr rfl)
  | @body j u v hu hv =>
    obtain rfl : j = i := hspares
    obtain ⟨rfl, hbody⟩ := hs.writing u hu
    refine ⟨fun _ => hs.valid (by simp [hu]), fun w hw => ?_, fun hw => ?_⟩
    · simp only [Function.update_self, Option.some.injEq, Conn.writing.injEq] at hw
      subst hw
      refine ⟨rfl, fun k hk x hx => ?_⟩
      by_cases hlast : k = u.written
      · subst hlast
        exact (set_same _ _ _).trans (Option.mem_unique hv hx)
      · have hother : appletBodyLBA + k ≠ appletBodyLBA + u.written := by omega
        exact (set_other hother _ _).trans (hbody k (by simp only at hk; omega) x hx)
    · simp only [Function.update_self] at hw
      cases hw
  | @header j u hu hnone =>
    obtain rfl : j = i := hspares
    obtain ⟨rfl, hbody⟩ := hs.writing u hu
    have hheader := set_same s.device appletHeaderLBA (headerBlock u.elf)
    refine ⟨fun _ => hs.valid (by simp [hu]), fun w hw => ?_, fun _ => ⟨hheader, fun k v hv => ?_⟩⟩
    · simp only [Function.update_self] at hw
      cases hw
    · -- there is no block from `written` on
      have hlen := List.getElem?_eq_none_iff.1 hnone
      obtain ⟨hk, -⟩ := List.getElem?_eq_some_iff.1 hv
      have hother : appletBodyLBA + k ≠ appletHeaderLBA := by rw [appletBodyLBA]; omega
      exact (set_other hother _ _).trans (hbody k (by omega) v hv)

/-- The card holds an applet that passed the checks, nothing is under way and nothing runs. -/
structure Installed (elf : List UInt8) (s : Life) : Prop where
  valid : validateApplet elf = none
  holds : Holds s.device elf
  conns : s.conns = fun _ => none
  down : ∀ ta, s.phase ≠ .up ta

/-- What a device is right after an upload that nothing disturbed. -/
theorem installed_after_upload {as cs : List LifeAct} {stream : List UInt8} {answers : Controller}
    (hrun : (lifeLts p device first).run (unborn device first)
      (as ++ .connect i stream answers :: (cs ++ [.reset i])) = some s)
    (hstream : uploaded? stream = some elf) (halone : ∀ a ∈ cs, Spares i a) :
    Installed elf s ∧ s.phase = .off := by
  rw [Lts.run_append, Option.bind_eq_some_iff] at hrun
  obtain ⟨m, -, hrun⟩ := hrun
  obtain ⟨b, hconnect, hrun⟩ := (Lts.run_cons _).1 hrun
  rw [Lts.run_append, Option.bind_eq_some_iff] at hrun
  obtain ⟨e, hcs, hrun⟩ := hrun
  obtain ⟨t, hreset, hrun⟩ := (Lts.run_cons _).1 hrun
  rw [Lts.run_nil, Option.some.injEq] at hrun
  subst hrun
  have hconnect : lifeStep p m (.connect i stream answers) = some b := hconnect
  have hreset : lifeStep p e (.reset i) = some t := hreset
  simp only [lifeStep] at hconnect hreset
  split_ifs at hconnect hreset with hfree hstored
  cases hconnect
  cases hreset
  have hend : Undisturbed i elf e := Lts.run_inv_of_meets (P := Undisturbed i elf)
    (g := fun _ a => Spares i a) (fun _ _ _ hs hg hst => step_undisturbed hs hg hst)
    (undisturbed_begun hstream rfl) (Lts.meets_of_mem fun _ a ha => halone a ha) hcs
  have hconn := stored?_eq_true.1 hstored
  obtain ⟨hheader, hbody⟩ := hend.stored hconn
  refine ⟨⟨hend.valid (by simp [hconn]), holds_of_hasBody hheader hbody, rfl, ?_⟩, rfl⟩
  intro ta hup
  cases hup

/-- A boot that comes up. -/
theorem step_boot {answers : Controller} {ifaceErr sshErr bridgeErr : Option String} {ta : ExecCtx}
    (hoff : s.phase = .off)
    (hmain : main p ⟨answers.sd s.device, ifaceErr, sshErr, bridgeErr⟩ = .running ta) :
    lifeStep p s (.boot answers ifaceErr sshErr bridgeErr) = some { s with phase := .up ta } := by
  simp only [lifeStep, hoff, if_true, hmain, bootPhase]

/-- A boot gets what is installed, or nothing. -/
theorem read_installed (hs : Installed elf s) (answers : Controller)
    (ifaceErr sshErr bridgeErr : Option String) :
    (CardReadable ⟨answers.sd s.device, ifaceErr, sshErr, bridgeErr⟩ elf →
      readAppletFromSD (answers.sd s.device) = some elf) ∧
    (¬ CardReadable ⟨answers.sd s.device, ifaceErr, sshErr, bridgeErr⟩ elf →
      readAppletFromSD (answers.sd s.device) = none) := by
  unfold CardReadable
  unfold Controller.sd
  split_ifs with hpresent
  · refine ⟨fun hread => ?_, fun hread => ?_⟩
    · obtain ⟨t, ht, hread⟩ := hread
      cases ht
      exact readAppletFromSD_of_written hs.valid hs.holds hread
    · exact readAppletFromSD_of_unreadable hs.valid hs.holds fun h => hread ⟨_, rfl, h⟩
  · refine ⟨fun hread => ?_, fun _ => rfl⟩
    obtain ⟨t, ht, -⟩ := hread
    cases ht

/-- Where the loader refuses what is installed, a boot that reads it halts. -/
theorem step_installed {a : LifeAct} (hno : ¬ Loads p elf) (hs : Installed elf s)
    (hreads : Reads elf s a) (h : lifeStep p s a = some s') : Installed elf s' := by
  have hidle : ∀ {j c}, s.conns j ≠ some c := by simp [hs.conns]
  cases lived_of_step h with
  | @boot answers ifaceErr sshErr bridgeErr hoff =>
    refine ⟨hs.valid, hs.holds, hs.conns, fun ta hup => ?_⟩
    have hread := (read_installed hs answers ifaceErr sshErr bridgeErr).1 hreads
    cases hmain : main p ⟨answers.sd s.device, ifaceErr, sshErr, bridgeErr⟩ with
    | fatal msg =>
      simp only [hmain, bootPhase] at hup
      cases hup
    | running ta' =>
      obtain ⟨-, hloads, -⟩ := main_eq_running.1 hmain
      simp only [hread, Option.getD_some] at hloads
      exact hno hloads
  | connect hup =>
    cases hphase : s.phase with
    | up ta => exact absurd hphase (hs.down ta)
    | off => simp [hphase, Phase.isUp] at hup
    | halted => simp [hphase, Phase.isUp] at hup
  | body hu hv => exact absurd hu hidle
  | header hu hnone => exact absurd hu hidle
  | refused hu => exact absurd hu hidle
  | reset hstored => exact absurd hstored hidle
  | powerLoss => exact ⟨hs.valid, hs.holds, rfl, by simp [Life.down]⟩

/-- **After an upload that nothing disturbed** a device whose boots all read the card comes up again
exactly if its loader takes the applet: if it does not, no power cycle and no connection brings back
the embedded one. A boot that cannot read it does. -/
theorem up_again_iff (p : Platform) (device : Device appletBlockSize) (first : List (List UInt8))
    (as cs : List LifeAct) (i : Nat) (stream : List UInt8) (answers : Controller) (elf : List UInt8)
    (s : Life) (hrun : (lifeLts p device first).run (unborn device first)
      (as ++ .connect i stream answers :: (cs ++ [.reset i])) = some s)
    (hstream : uploaded? stream = some elf) (halone : ∀ a ∈ cs, Spares i a) :
    ((∃ bs s' ta, (lifeLts p device first).run s bs = some s' ∧
        (lifeLts p device first).Meets (Reads elf) s bs ∧ s'.phase = .up ta) ↔ Loads p elf) ∧
      ∀ (answers : Controller) (ifaceErr sshErr bridgeErr : Option String),
        NetworkUp ⟨answers.sd s.device, ifaceErr, sshErr, bridgeErr⟩ →
        ¬ CardReadable ⟨answers.sd s.device, ifaceErr, sshErr, bridgeErr⟩ elf →
        lifeStep p s (.boot answers ifaceErr sshErr bridgeErr) =
          some { s with phase := .up ⟨p.taELF⟩ } := by
  obtain ⟨hs, hoff⟩ := installed_after_upload hrun hstream halone
  refine ⟨⟨?_, fun hloads => ?_⟩, fun answers ifaceErr sshErr bridgeErr hnet hread => ?_⟩
  · rintro ⟨bs, s', ta, hbs, hreads, hup⟩
    by_contra hno
    have hstuck : Installed elf s' := Lts.run_inv_of_meets (P := Installed elf) (g := Reads elf)
      (fun _ _ _ hs hg hst => step_installed hno hs hg hst) hs hreads hbs
    exact hstuck.down ta hup
  · have hread : CardReadable ⟨fine.sd s.device, none, none, none⟩ elf := ⟨_, rfl, readable_card _ elf⟩
    have hmain : main p ⟨fine.sd s.device, none, none, none⟩ = .running ⟨elf⟩ :=
      main_eq_running.2 (by
        rw [(read_installed hs fine none none none).1 hread]
        exact ⟨⟨rfl, rfl, rfl⟩, hloads, rfl⟩)
    have hboot := step_boot hoff hmain
    exact ⟨[.boot fine none none none], _, ⟨elf⟩, (Lts.run_cons _).2 ⟨_, hboot, rfl⟩,
      (Lts.meets_cons _ hboot).2 ⟨hread, trivial⟩, rfl⟩
  · refine step_boot hoff (main_eq_running.2 ?_)
    rw [(read_installed hs answers ifaceErr sshErr bridgeErr).2 hread]
    exact ⟨hnet, loads_taELF p, rfl⟩

end

/-- A second upload begins beside the one that goes through, and a loader of programs halts on it. -/
def haltingRun : List LifeAct :=
  [.boot fine none none none, .connect 1 (twoLines 1) fine] ++
    .connect 0 (twoLines 0) fine :: ([.block 0, .connect 2 [] fine, .block 0] ++ [.reset 0])

theorem run_halting : ∃ s, (lifeLts strict blank []).run (unborn blank []) haltingRun = some s := by
  have hread : readAppletFromSD (fine.sd blank) = none := by decide +kernel
  have hmain : main strict ⟨fine.sd blank, none, none, none⟩ = .running ⟨strict.taELF⟩ := by
    rw [main_fine strict (by rw [hread]; exact loads_taELF strict), hread]
    rfl
  simp [haltingRun, Lts.run, lifeLts, lifeStep, unborn, hmain, bootPhase, Phase.isUp, begun?_twoLines,
    Life.writing?, Life.stored?, Life.put, Life.view, Life.connOf, writeNext, bodyBlock_twoElfs,
    Life.down, Function.update]

theorem up_again_never : ∃ s,
    (lifeLts strict blank []).run (unborn blank []) haltingRun = some s ∧
      (¬ ∃ bs s' ta, (lifeLts strict blank []).run s bs = some s' ∧
        (lifeLts strict blank []).Meets (Reads (twoElfs 0)) s bs ∧ s'.phase = .up ta) ∧
      lifeStep strict s (.boot { fine with present := false } none none none) =
        some { s with phase := .up ⟨strict.taELF⟩ } := by
  obtain ⟨s, hs⟩ := run_halting
  have hno : ¬ Loads strict (twoElfs 0) := fun h => absurd h.1 (by decide)
  obtain ⟨hiff, hrescue⟩ := up_again_iff strict blank []
    [.boot fine none none none, .connect 1 (twoLines 1) fine]
    [.block 0, .connect 2 [] fine, .block 0] 0 (twoLines 0) fine (twoElfs 0) s hs
    (uploaded?_twoLines 0) (by simp [Spares])
  refine ⟨s, hs, fun h => hno (hiff.1 h), hrescue _ none none none ⟨rfl, rfl, rfl⟩ ?_⟩
  rintro ⟨t, ht, -⟩
  cases ht

end SealedSky.TrustedOs
