import SealedSky.Lib.BlockDev

/-!
# Programs over a block device

A program hands the device one transfer after the other and goes on with what comes back. Its buffers
are sliced and indexed with a check, and out of bounds it panics.

* `Meets` — a condition on the addresses of all transfers and on the result, whatever the device answers.
* `Meets.run` — on a device such a program does not panic, keeps to its addresses and leaves the others
  alone.
-/
namespace SealedSky.BlockProg

open BlockDev

inductive Prog (b : Nat) (ε α : Type) where
  | done (a : α)
  | panic
  | read (lba n : Nat) (next : Except ε (List UInt8) → Prog b ε α)
  | write (lba : Nat) (vs : List (Block b)) (next : Option ε → Prog b ε α)

/-- A transfer between the device and a buffer. -/
structure Transfer where
  isWrite : Bool
  lba : Nat
  count : Nat

/-- What a run leaves behind; without a result it panicked. -/
structure Run (b : Nat) (α : Type) where
  result : Option α
  device : Device b
  transfers : List Transfer

section
variable {b : Nat} {ε α β : Type}

protected def Prog.bind : Prog b ε α → (α → Prog b ε β) → Prog b ε β
  | .done a, f => f a
  | .panic, _ => .panic
  | .read lba n next, f => .read lba n fun r => (next r).bind f
  | .write lba vs next, f => .write lba vs fun e => (next e).bind f

instance : Monad (Prog b ε) where
  pure := .done
  bind := Prog.bind

/-- `bs[lo:hi]`. -/
def slice (bs : List UInt8) (lo hi : Nat) : Prog b ε (List UInt8) :=
  if lo ≤ hi ∧ hi ≤ bs.length then .done ((bs.drop lo).take (hi - lo)) else .panic

/-- `bs[i]`. -/
def index (bs : List UInt8) (i : Nat) : Prog b ε UInt8 :=
  match bs[i]? with
  | some u => .done u
  | none => .panic

/-- `copy(buf[lo:hi], src)`, and the buffer afterwards. -/
def copyTo (buf : List UInt8) (lo hi : Nat) (src : List UInt8) : Prog b ε (List UInt8) :=
  if lo ≤ hi ∧ hi ≤ buf.length then
    .done (buf.take lo ++ (src.take (hi - lo) ++ buf.drop (lo + min (hi - lo) src.length)))
  else .panic

def readAt (lba n : Nat) : Prog b ε (Except ε (List UInt8)) := .read lba n .done

def writeAt (lba : Nat) (vs : List (Block b)) : Prog b ε (Option ε) := .write lba vs .done

@[simp] theorem pure_eq (a : α) : (pure a : Prog b ε α) = .done a := rfl

@[simp] theorem done_bind (a : α) (f : α → Prog b ε β) : (.done a : Prog b ε α) >>= f = f a := rfl

@[simp] theorem readAt_bind (lba n : Nat) (f : Except ε (List UInt8) → Prog b ε β) :
    readAt lba n >>= f = .read lba n f := rfl

@[simp] theorem writeAt_bind (lba : Nat) (vs : List (Block b)) (f : Option ε → Prog b ε β) :
    writeAt lba vs >>= f = .write lba vs f := rfl

theorem slice_of_le {bs : List UInt8} {lo hi : Nat} (h : lo ≤ hi ∧ hi ≤ bs.length) :
    (slice bs lo hi : Prog b ε (List UInt8)) = .done ((bs.drop lo).take (hi - lo)) := if_pos h

theorem index_of_lt {bs : List UInt8} {i : Nat} (h : i < bs.length) :
    (index bs i : Prog b ε UInt8) = .done (bs.getD i 0) := by
  unfold index
  rw [List.getD_eq_getElem?_getD, List.getElem?_eq_getElem h]
  rfl

theorem copyTo_of_le {buf src : List UInt8} {lo hi : Nat} (h : lo ≤ hi ∧ hi ≤ buf.length) :
    (copyTo buf lo hi src : Prog b ε (List UInt8)) =
      .done (buf.take lo ++ (src.take (hi - lo) ++ buf.drop (lo + min (hi - lo) src.length))) :=
  if_pos h

/-- A copy into the zeros behind what is in a buffer already. -/
theorem copyTo_zeros {front src : List UInt8} {lo hi n k : Nat} (hlo : front.length = lo)
    (hhi : lo + src.length = hi) (h : src.length + k = n) :
    (copyTo (front ++ List.replicate n 0) lo hi src : Prog b ε (List UInt8)) =
      .done (front ++ (src ++ List.replicate k 0)) := by
  subst hlo hhi h
  have hle : front.length + src.length ≤ (front ++ List.replicate (src.length + k) 0).length := by
    rw [List.length_append, List.length_replicate]
    omega
  rw [copyTo_of_le ⟨Nat.le_add_right _ _, hle⟩, Nat.add_sub_cancel_left, Nat.min_self,
    List.take_left, List.take_length, List.drop_append, List.drop_eq_nil_of_le (Nat.le_add_right _ _),
    List.nil_append, Nat.add_sub_cancel_left, List.drop_replicate, Nat.add_sub_cancel_left]

/-! ## Runs -/

/-- A run on a device that fails by address. -/
def Prog.run (readErr writeErr : Nat → Option ε) : Prog b ε α → Device b → Run b α
  | .done a, d => ⟨some a, d, []⟩
  | .panic, d => ⟨none, d, []⟩
  | .read lba n next, d =>
    let r := (next (BlockDev.read readErr d lba n)).run readErr writeErr d
    { r with transfers := ⟨false, lba, n⟩ :: r.transfers }
  | .write lba vs next, d =>
    let w := BlockDev.write writeErr lba vs d
    let r := (next w.1).run readErr writeErr w.2
    { r with transfers := ⟨true, lba, vs.length⟩ :: r.transfers }

/-- The addresses of the transfers. -/
def Run.touched (r : Run b α) : List Nat := r.transfers.flatMap fun t => List.range' t.lba t.count

/-- All transfers keep to some addresses and the result meets a condition, whatever the device answers.
A read that goes through fills its buffer. -/
def Meets (within : Nat → Prop) (post : α → Prop) : Prog b ε α → Prop
  | .done a => post a
  | .panic => False
  | .read lba n next => (∀ i < n, within (lba + i)) ∧
    ∀ r, (∀ bs, r = .ok bs → bs.length = n * b) → Meets within post (next r)
  | .write lba vs next => (∀ i < vs.length, within (lba + i)) ∧ ∀ e, Meets within post (next e)

theorem mem_touched_cons {t : Transfer} {ts : List Transfer} {r : Option α} {d : Device b} {a : Nat} :
    a ∈ (Run.mk r d (t :: ts)).touched ↔
      (∃ i < t.count, a = t.lba + i) ∨ a ∈ (Run.mk r d ts).touched := by
  unfold Run.touched
  rw [List.flatMap_cons, List.mem_append, List.mem_range']
  simp only [Nat.one_mul]

/-- **A program that meets a condition does so on every device.** -/
theorem Meets.run {within : Nat → Prop} {post : α → Prop} {p : Prog b ε α} (h : Meets within post p)
    (readErr writeErr : Nat → Option ε) (d : Device b) :
    (∃ a, (p.run readErr writeErr d).result = some a ∧ post a) ∧
      (∀ a ∈ (p.run readErr writeErr d).touched, within a) ∧
      ∀ a, ¬ within a → (p.run readErr writeErr d).device a = d a := by
  induction p generalizing d with
  | done a =>
    refine ⟨⟨a, rfl, h⟩, fun a ha => ?_, fun _ _ => rfl⟩
    cases ha
  | panic => exact h.elim
  | read lba n next ih =>
    obtain ⟨hin, hnext⟩ := h
    have hbuffer : ∀ bs, BlockDev.read readErr d lba n = .ok bs → bs.length = n * b := by
      intro bs hbs
      rw [read_eq_ok hbs, contents_length]
    obtain ⟨hresult, htouched, hframe⟩ := ih _ (hnext _ hbuffer) d
    refine ⟨hresult, fun a ha => ?_, hframe⟩
    rcases mem_touched_cons.1 ha with ⟨i, hi, rfl⟩ | ha
    · exact hin i hi
    · exact htouched a ha
  | write lba vs next ih =>
    obtain ⟨hin, hnext⟩ := h
    obtain ⟨hresult, htouched, hframe⟩ := ih _ (hnext (BlockDev.write writeErr lba vs d).1)
      (BlockDev.write writeErr lba vs d).2
    refine ⟨hresult, fun a ha => ?_, fun a ha => ?_⟩
    · rcases mem_touched_cons.1 ha with ⟨i, hi, rfl⟩ | ha
      · exact hin i hi
      · exact htouched a ha
    · have hout : a < lba ∨ lba + vs.length ≤ a := by
        by_contra hno
        obtain ⟨hge, hlt⟩ := not_or.1 hno
        refine ha ?_
        have := hin (a - lba) (by omega)
        rwa [Nat.add_sub_cancel' (by omega)] at this
      exact (hframe a ha).trans (write_frame hout)

end

end SealedSky.BlockProg
