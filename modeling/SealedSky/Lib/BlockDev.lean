import Mathlib.Data.List.Basic

/-!
# Block devices

A device is a function from addresses to blocks of one size. A write of several blocks goes block by
block in ascending order and stops at the first that fails, so what it leaves behind is a prefix of
the write.

* `write_frame` — a write changes no block outside its range, also when it fails.
* `write_ok`, `read_eq_flatten` — blocks written without a failure are read back.
* `read_eq_ok` — a read that goes through returns the `contents` of the device.
* `flatten_blocksOf` — cutting bytes into blocks and joining them changes nothing but the padding.
-/
namespace SealedSky.BlockDev

structure Block (b : Nat) where
  bytes : List UInt8
  length_eq : bytes.length = b

abbrev Device (b : Nat) := Nat → Block b

def Device.set {b : Nat} (d : Device b) (a : Nat) (v : Block b) : Device b :=
  fun a' => if a' = a then v else d a'

section
variable {b : Nat} {ε : Type}

/-- Write blocks from address `a` on; a failing address stops the write. -/
def write (fails : Nat → Option ε) (a : Nat) : List (Block b) → Device b → Option ε × Device b
  | [], d => (none, d)
  | v :: vs, d =>
    match fails a with
    | some e => (some e, d)
    | none => write fails (a + 1) vs (d.set a v)

/-- Read `n` blocks from address `a` on. -/
def read (fails : Nat → Option ε) (d : Device b) : Nat → Nat → Except ε (List UInt8)
  | _, 0 => .ok []
  | a, n + 1 =>
    match fails a with
    | some e => .error e
    | none => (read fails d (a + 1) n).map fun rest => (d a).bytes ++ rest

/-- The bytes of `n` blocks from address `a` on. -/
def contents (d : Device b) : Nat → Nat → List UInt8
  | _, 0 => []
  | a, n + 1 => (d a).bytes ++ contents d (a + 1) n

/-- The bytes of a list of blocks. -/
def flatten (vs : List (Block b)) : List UInt8 := vs.flatMap (·.bytes)

/-- The first block of some bytes, filled up with zeros. -/
def firstBlock (b : Nat) (data : List UInt8) : Block b where
  bytes := data.take b ++ List.replicate (b - data.length) 0
  length_eq := by
    rw [List.length_append, List.length_take, List.length_replicate]
    omega

/-- The first `n` blocks of some bytes. -/
def blocksOf (b : Nat) : Nat → List UInt8 → List (Block b)
  | 0, _ => []
  | n + 1, data => firstBlock b data :: blocksOf b n (data.drop b)

theorem blocksOf_length (n : Nat) (data : List UInt8) : (blocksOf b n data).length = n := by
  induction n generalizing data with
  | zero => rfl
  | succ n ih => rw [blocksOf, List.length_cons, ih]

theorem flatten_blocksOf {n : Nat} {data : List UInt8} (h : data.length = n * b) :
    flatten (blocksOf b n data) = data := by
  induction n generalizing data with
  | zero =>
    rw [Nat.zero_mul] at h
    rw [List.eq_nil_of_length_eq_zero h]
    rfl
  | succ n ih =>
    have hb : b - data.length = 0 := by
      rw [Nat.add_mul] at h
      omega
    have hrest : (data.drop b).length = n * b := by
      rw [List.length_drop, h, Nat.add_mul]
      omega
    rw [blocksOf, flatten, List.flatMap_cons, ← flatten, ih hrest]
    simp only [firstBlock, hb, List.replicate_zero, List.append_nil, List.take_append_drop]

theorem set_same (d : Device b) (a : Nat) (v : Block b) : d.set a v a = v := if_pos rfl

theorem set_other {a a' : Nat} (h : a' ≠ a) (d : Device b) (v : Block b) : d.set a v a' = d a' :=
  if_neg h

theorem write_cons_of_ok {fails : Nat → Option ε} {a : Nat} (h : fails a = none) (v : Block b)
    (vs : List (Block b)) (d : Device b) :
    write fails a (v :: vs) d = write fails (a + 1) vs (d.set a v) := by
  rw [write, h]

/-- **A write keeps to its range**, whether it fails or not. -/
theorem write_frame {fails : Nat → Option ε} {vs : List (Block b)} {a a' : Nat} {d : Device b}
    (h : a' < a ∨ a + vs.length ≤ a') : (write fails a vs d).2 a' = d a' := by
  induction vs generalizing a d with
  | nil => rfl
  | cons v vs ih =>
    rw [List.length_cons] at h
    cases hf : fails a with
    | some e => rw [write, hf]
    | none => rw [write_cons_of_ok hf, ih (by omega), set_other (by omega)]

/-- A write without a failure leaves its blocks in place. -/
theorem write_ok {fails : Nat → Option ε} {vs : List (Block b)} {a : Nat} {d : Device b}
    (hok : (write fails a vs d).1 = none) :
    ∀ i (h : i < vs.length), (write fails a vs d).2 (a + i) = vs[i] := by
  induction vs generalizing a d with
  | nil =>
    intro i h
    exact absurd h (Nat.not_lt_zero i)
  | cons v vs ih =>
    intro i h
    cases hf : fails a with
    | some e =>
      rw [write, hf] at hok
      cases hok
    | none =>
      rw [write_cons_of_ok hf] at hok ⊢
      cases i with
      | zero =>
        change (write fails (a + 1) vs (d.set a v)).2 a = v
        rw [write_frame (by omega), set_same]
      | succ i =>
        rw [List.length_cons] at h
        have heq : a + (i + 1) = a + 1 + i := by omega
        rw [heq, ih hok i (by omega)]
        rfl

theorem read_eq_flatten {fails : Nat → Option ε} {d : Device b} {vs : List (Block b)} {a : Nat}
    (hd : ∀ i (h : i < vs.length), d (a + i) = vs[i])
    (hf : ∀ i < vs.length, fails (a + i) = none) :
    read fails d a vs.length = .ok (flatten vs) := by
  induction vs generalizing a with
  | nil => rfl
  | cons v vs ih =>
    have hshift : ∀ i, a + 1 + i = a + (i + 1) := fun i => by omega
    have hrest : read fails d (a + 1) vs.length = .ok (flatten vs) := by
      refine ih (fun i h => ?_) fun i h => ?_
      · rw [hshift, hd (i + 1) (by simpa using h)]
        rfl
      · rw [hshift, hf (i + 1) (by simpa using h)]
    have hfirst : d a = v := hd 0 (by simp)
    have hread : fails a = none := hf 0 (by simp)
    rw [List.length_cons, read, hread, hrest, hfirst]
    rfl

/-- A device that takes every block takes a whole write. -/
theorem write_fst {fails : Nat → Option ε} {vs : List (Block b)} {a : Nat} {d : Device b}
    (h : ∀ i, fails i = none) : (write fails a vs d).1 = none := by
  induction vs generalizing a d with
  | nil => rfl
  | cons v vs ih => rw [write_cons_of_ok (h a), ih]

/-- **A read that goes through returns what the device holds.** -/
theorem read_eq_ok {fails : Nat → Option ε} {d : Device b} {n a : Nat} {bs : List UInt8}
    (h : read fails d a n = .ok bs) : bs = contents d a n := by
  induction n generalizing a bs with
  | zero =>
    cases h
    rfl
  | succ n ih =>
    rw [read] at h
    split at h
    · cases h
    · cases hrest : read fails d (a + 1) n with
      | error e =>
        rw [hrest] at h
        cases h
      | ok rest =>
        rw [hrest] at h
        cases h
        rw [contents, ih hrest]

theorem contents_length (d : Device b) (n a : Nat) : (contents d a n).length = n * b := by
  induction n generalizing a with
  | zero => rw [contents, List.length_nil, Nat.zero_mul]
  | succ n ih => rw [contents, List.length_append, (d a).length_eq, ih, Nat.succ_mul, Nat.add_comm]

theorem contents_eq_flatten {d : Device b} {vs : List (Block b)} {a : Nat}
    (hd : ∀ i (h : i < vs.length), d (a + i) = vs[i]) : contents d a vs.length = flatten vs := by
  have hread : read (fun _ => (none : Option Unit)) d a vs.length = .ok (flatten vs) :=
    read_eq_flatten hd fun _ _ => rfl
  exact (read_eq_ok hread).symm

/-- A read fails with any of its blocks. -/
theorem read_fails {fails : Nat → Option ε} {d : Device b} {n a i : Nat} (h : i < n)
    (hf : (fails (a + i)).isSome) : ∃ e, read fails d a n = .error e := by
  induction n generalizing a i with
  | zero => exact absurd h (Nat.not_lt_zero i)
  | succ n ih =>
    cases ha : fails a with
    | some e => exact ⟨e, by rw [read, ha]⟩
    | none =>
      cases i with
      | zero =>
        rw [Nat.add_zero, ha] at hf
        cases hf
      | succ i =>
        have heq : a + (i + 1) = a + 1 + i := by omega
        rw [heq] at hf
        obtain ⟨e, he⟩ := ih (by omega) hf
        exact ⟨e, by rw [read, ha, he]; rfl⟩

end

end SealedSky.BlockDev
