import SealedSky.Js.String
import SealedSky.Lib.Binary64
import Mathlib.Data.Nat.Digits.Defs
import Mathlib.Data.Nat.Digits.Lemmas

/-!
# JavaScript numbers and their texts

`stringToNumber` is `Number(s)` of a string and `toString` is `String(x)` of a number, the text that
template literals and `JSON.stringify` print: the shortest digits that read back as the number, in
plain or in exponent notation. Zero has no sign here; neither function lets it be seen.

* `unsignedDecimal_layout` — a printed text reads as the value its digits stand for.
* `stringToNumber_toString` — every number reads back from its own text.
-/
namespace SealedSky.Js

open Binary64

inductive JsNum where
  | nan
  | infinity (neg : Bool)
  | fin (x : Double)
  deriving DecidableEq

/-- The number nearest to a value. -/
def ofRat (v : ℚ) : JsNum :=
  match h : round? v with
  | some y => .fin ⟨y, round_idem h⟩
  | none => .infinity (decide (v < 0))

def JsNum.neg : JsNum → JsNum
  | .nan => .nan
  | .infinity n => .infinity !n
  | .fin x => .fin x.neg

/-- `Number.isFinite`. -/
def JsNum.isFinite : JsNum → Bool
  | .fin _ => true
  | _ => false

/-! ## Reading -/

def digitVal (u : UInt16) : Option ℕ :=
  if 48 ≤ u.toNat ∧ u.toNat ≤ 57 then some (u.toNat - 48) else none

/-- The digits a text starts with, and the rest. -/
def scanDigits : JsString → List ℕ × JsString
  | [] => ([], [])
  | u :: r =>
    match digitVal u with
    | some d => (d :: (scanDigits r).1, (scanDigits r).2)
    | none => ([], u :: r)

def natOf (ds : List ℕ) : ℕ := Nat.ofDigits 10 ds.reverse

/-- The digits of an exponent, with nothing behind them. -/
def exponentDigits (s : JsString) : Option ℕ :=
  if (scanDigits s).1 = [] ∨ (scanDigits s).2 ≠ [] then none else some (natOf (scanDigits s).1)

/-- `e` or `E` and a signed number, or nothing at all. -/
def exponentPart : JsString → Option ℤ
  | [] => some 0
  | u :: r =>
    if u = 101 ∨ u = 69 then
      match r with
      | [] => none
      | v :: r' =>
        if v = 43 then (exponentDigits r').map fun n => (n : ℤ)
        else if v = 45 then (exponentDigits r').map fun n => -(n : ℤ)
        else (exponentDigits (v :: r')).map fun n => (n : ℤ)
    else none

/-- The digits behind a decimal point, if there is one. -/
def fractionDigits : JsString → List ℕ × JsString
  | [] => ([], [])
  | u :: r => if u = 46 then scanDigits r else ([], u :: r)

/-- `StrUnsignedDecimalLiteral`, `Infinity` apart. -/
def unsignedDecimal (s : JsString) : Option ℚ :=
  let ip := scanDigits s
  let fp := fractionDigits ip.2
  if ip.1 = [] ∧ fp.1 = [] then none
  else (exponentPart fp.2).map fun (e : ℤ) => (natOf (ip.1 ++ fp.1) : ℚ) * 10 ^ (e - fp.1.length)

/-- `0x`, `0o` or `0b`: the radix and the text behind it. -/
def radixPrefix : JsString → Option (ℕ × JsString)
  | z :: x :: r =>
    if z ≠ 48 then none
    else if x = 120 ∨ x = 88 then some (16, r)
    else if x = 111 ∨ x = 79 then some (8, r)
    else if x = 98 ∨ x = 66 then some (2, r)
    else none
  | _ => none

def radixDigit (b : ℕ) (u : UInt16) : Option ℕ :=
  let v :=
    if 48 ≤ u.toNat ∧ u.toNat ≤ 57 then u.toNat - 48
    else if 97 ≤ u.toNat ∧ u.toNat ≤ 102 then u.toNat - 87
    else if 65 ≤ u.toNat ∧ u.toNat ≤ 70 then u.toNat - 55
    else b
  if v < b then some v else none

def radixInteger (b : ℕ) (s : JsString) : Option ℕ :=
  if s = [] then none
  else (s.mapM (radixDigit b)).map fun ds => Nat.ofDigits b ds.reverse

/-- The sign a text starts with, and the text behind it. -/
def signed : JsString → Bool × JsString
  | [] => (false, [])
  | u :: r => if u = 43 then (false, r) else if u = 45 then (true, r) else (false, u :: r)

/-- `StringToNumber`. -/
def stringToNumber (s : JsString) : JsNum :=
  let t := trim s
  if t = [] then ofRat 0
  else
    match radixPrefix t with
    | some (b, r) =>
      match radixInteger b r with
      | some n => ofRat n
      | none => .nan
    | none =>
      let (neg, u) := signed t
      if u = js "Infinity" then .infinity neg
      else
        match unsignedDecimal u with
        | some v => if neg then (ofRat v).neg else ofRat v
        | none => .nan

/-! ## Printing -/

def digitUnits (ds : List ℕ) : JsString := ds.map fun d => UInt16.ofNat (48 + d)

def digitsOf (n : ℕ) : List ℕ := (Nat.digits 10 n).reverse

/-- A number of `k` digits, times `10 ^ (n - k)`, that reads back as `x`: the nearer one of the two
around `x`, the even one of two as near. -/
def candidate (x : ℚ) (n : ℤ) (k : ℕ) : Option ℤ :=
  let y := x * 10 ^ ((k : ℤ) - n)
  let lo := ⌊y⌋
  let hi := ⌈y⌉
  let ok (s : ℤ) : Prop := round? ((s : ℚ) * 10 ^ (n - k)) = some x
  if ok lo ∧ ok hi then
    if y - lo < hi - y then some lo
    else if hi - y < y - lo then some hi
    else if lo % 2 = 0 then some lo
    else some hi
  else if ok lo then some lo
  else if ok hi then some hi
  else none

/-- The least number of digits from `k` on that will do, within the fuel. -/
def search (x : ℚ) (n : ℤ) : ℕ → ℕ → Option (ℕ × ℤ)
  | 0, _ => none
  | f + 1, k =>
    match candidate x n k with
    | some s => some (k, s)
    | none => search x n f (k + 1)

/-- The digits of a positive number and the place of its decimal point. The exact value of a double
ends after as many decimals as its denominator has bits. -/
def shortest (x : ℚ) : List ℕ × ℤ :=
  let n := Int.log 10 x + 1
  match search x n (n + Nat.log 2 x.den).toNat 1 with
  | some (k, s) =>
    if s = 10 ^ k then (digitsOf (10 ^ (k - 1)), n + 1) else (digitsOf s.toNat, n)
  | none => ([], n)

/-- `Number::toString` from step 5 on: where the point goes, or which exponent is written. -/
def layout (ds : List ℕ) (n : ℤ) : JsString :=
  if ds.length ≤ n ∧ n ≤ 21 then
    digitUnits ds ++ List.replicate (n - ds.length).toNat 48
  else if 0 < n ∧ n ≤ 21 then
    digitUnits (ds.take n.toNat) ++ 46 :: digitUnits (ds.drop n.toNat)
  else if -6 < n ∧ n ≤ 0 then
    48 :: 46 :: (List.replicate (-n).toNat 48 ++ digitUnits ds)
  else
    let e := n - 1
    let exponent := 101 :: (if e < 0 then 45 else 43) :: digitUnits (digitsOf e.natAbs)
    if ds.length = 1 then digitUnits ds ++ exponent
    else digitUnits (ds.take 1) ++ 46 :: (digitUnits (ds.drop 1) ++ exponent)

def decimalText (x : ℚ) : JsString := layout (shortest x).1 (shortest x).2

/-- `Number::toString`. -/
def toString : JsNum → JsString
  | .nan => js "NaN"
  | .infinity neg => if neg then js "-Infinity" else js "Infinity"
  | .fin x =>
    if x.val = 0 then js "0"
    else if x.val < 0 then 45 :: decimalText (-x.val)
    else decimalText x.val

/-! ## Printed texts are read back -/

/-- A text that does not go on with a digit. -/
def NoDigit : JsString → Prop
  | [] => True
  | u :: _ => digitVal u = none

theorem digitVal_unit : ∀ d < 10, digitVal (UInt16.ofNat (48 + d)) = some d := by decide

theorem scanDigits_append : ∀ {ds : List ℕ} {rest : JsString}, (∀ d ∈ ds, d < 10) → NoDigit rest →
    scanDigits (digitUnits ds ++ rest) = (ds, rest)
  | [], [], _, _ => rfl
  | [], u :: r, _, h => by
    have h : digitVal u = none := h
    rw [digitUnits, List.map_nil, List.nil_append, scanDigits, h]
  | d :: ds, rest, hd, h => by
    rw [digitUnits, List.map_cons, List.cons_append, scanDigits,
      digitVal_unit d (hd d List.mem_cons_self)]
    simp only
    rw [← digitUnits, scanDigits_append (fun e he => hd e (List.mem_cons_of_mem _ he)) h]

theorem scanDigits_all {ds : List ℕ} (h : ∀ d ∈ ds, d < 10) :
    scanDigits (digitUnits ds) = (ds, []) := by
  have hread : scanDigits (digitUnits ds ++ []) = (ds, []) := scanDigits_append h trivial
  rwa [List.append_nil] at hread

theorem natOf_append (a b : List ℕ) : natOf (a ++ b) = natOf a * 10 ^ b.length + natOf b := by
  unfold natOf
  rw [List.reverse_append, Nat.ofDigits_append, List.length_reverse]
  ring

theorem natOf_replicate_zero (j : ℕ) : natOf (List.replicate j 0) = 0 := by
  unfold natOf
  rw [List.reverse_replicate, Nat.ofDigits_replicate_zero]

theorem natOf_digitsOf (n : ℕ) : natOf (digitsOf n) = n := by
  rw [natOf, digitsOf, List.reverse_reverse, Nat.ofDigits_digits]

theorem digitsOf_lt (n : ℕ) : ∀ d ∈ digitsOf n, d < 10 := fun _ hd =>
  Nat.digits_lt_base (by decide) (List.mem_reverse.1 hd)

theorem digitsOf_ne_nil {n : ℕ} (h : n ≠ 0) : digitsOf n ≠ [] := fun he =>
  Nat.digits_ne_nil_iff_ne_zero.2 h (List.reverse_eq_nil_iff.1 he)

theorem exponentPart_digits {m : ℕ} (hm : m ≠ 0) :
    exponentPart (101 :: 43 :: digitUnits (digitsOf m)) = some (m : ℤ) ∧
      exponentPart (101 :: 45 :: digitUnits (digitsOf m)) = some (-(m : ℤ)) := by
  have hexp : exponentDigits (digitUnits (digitsOf m)) = some m := by
    unfold exponentDigits
    rw [scanDigits_all (digitsOf_lt m), if_neg (by simp [digitsOf_ne_nil hm]), natOf_digitsOf]
  constructor
  · simp only [exponentPart, hexp]
    rfl
  · simp only [exponentPart, hexp]
    rfl

/-- A whole number and what comes after it. -/
theorem unsignedDecimal_integer (ip : List ℕ) (tail : JsString) {e : ℤ} (hne : ip ≠ [])
    (hip : ∀ d ∈ ip, d < 10) (hnd : NoDigit tail) (hdot : tail.head? ≠ some 46)
    (he : exponentPart tail = some e) :
    unsignedDecimal (digitUnits ip ++ tail) = some ((natOf ip : ℚ) * 10 ^ e) := by
  have hfrac : fractionDigits tail = ([], tail) := by
    cases tail with
    | nil => rfl
    | cons u r =>
      have hu : u ≠ 46 := fun h => hdot (congrArg some h)
      exact if_neg hu
  unfold unsignedDecimal
  simp only [scanDigits_append hip hnd, hfrac]
  rw [if_neg fun h => hne h.1, he]
  simp

/-- A number with a decimal point and what comes after it. -/
theorem unsignedDecimal_fraction (ip fp : List ℕ) (tail : JsString) {e : ℤ} (hne : ip ≠ [])
    (hip : ∀ d ∈ ip, d < 10) (hfp : ∀ d ∈ fp, d < 10) (hnd : NoDigit tail)
    (he : exponentPart tail = some e) :
    unsignedDecimal (digitUnits ip ++ 46 :: (digitUnits fp ++ tail)) =
      some ((natOf (ip ++ fp) : ℚ) * 10 ^ (e - fp.length)) := by
  have hfrac : fractionDigits (46 :: (digitUnits fp ++ tail)) = (fp, tail) := by
    simp only [fractionDigits, if_true, scanDigits_append hfp hnd]
  have hpoint : NoDigit (46 :: (digitUnits fp ++ tail)) := (by decide : digitVal 46 = none)
  unfold unsignedDecimal
  simp only [scanDigits_append hip hpoint, hfrac]
  rw [if_neg fun h => hne h.1, he]
  rfl

/-- **A printed text reads as the value its digits stand for.** -/
theorem unsignedDecimal_layout {ds : List ℕ} (hne : ds ≠ []) (hds : ∀ d ∈ ds, d < 10) (n : ℤ) :
    unsignedDecimal (layout ds n) = some ((natOf ds : ℚ) * 10 ^ (n - ds.length)) := by
  have hlen : 0 < ds.length := List.length_pos_of_ne_nil hne
  have hzero : ∀ j, ∀ d ∈ List.replicate j 0, d < 10 := fun j d hd => by
    rw [List.eq_of_mem_replicate hd]
    decide
  have hreplicate : ∀ j, List.replicate j (48 : UInt16) = digitUnits (List.replicate j 0) :=
    fun j => by rw [digitUnits, List.map_replicate]; rfl
  have happend : ∀ a b, digitUnits (a ++ b) = digitUnits a ++ digitUnits b := fun a b =>
    List.map_append
  unfold layout
  split
  · -- all digits stand in front of the point
    rename_i h
    obtain ⟨j, rfl⟩ : ∃ j : ℕ, n = ds.length + j := ⟨(n - ds.length).toNat, by omega⟩
    have hj : ((ds.length : ℤ) + j - ds.length).toNat = j := by omega
    have hj' : (ds.length : ℤ) + j - ds.length = j := by omega
    have hread := unsignedDecimal_integer (ds ++ List.replicate j 0) [] (e := 0)
      (by simp [hne]) (by
        intro d hd
        rcases List.mem_append.1 hd with hd | hd
        · exact hds d hd
        · exact hzero j d hd) trivial (by simp) rfl
    rw [List.append_nil, happend, ← hreplicate] at hread
    rw [hj, hj', hread, natOf_append, natOf_replicate_zero, List.length_replicate, zpow_natCast]
    push_cast
    simp
  · split
    · -- the point stands between two digits
      rename_i h1 h2
      have htake : ∀ d ∈ ds.take n.toNat, d < 10 := fun d hd => hds d (List.mem_of_mem_take hd)
      have hdrop : ∀ d ∈ ds.drop n.toNat, d < 10 := fun d hd => hds d (List.mem_of_mem_drop hd)
      have htake0 : ds.take n.toNat ≠ [] := fun h => by
        have := congrArg List.length h
        rw [List.length_take, List.length_nil] at this
        omega
      have hread := unsignedDecimal_fraction _ _ [] (e := 0) htake0 htake hdrop trivial rfl
      rw [List.append_nil, List.take_append_drop, List.length_drop] at hread
      rw [hread]
      congr 3
      omega
    · split
      · -- zeros stand behind the point
        rename_i h1 h2 h3
        have hfraction : ∀ d ∈ List.replicate (-n).toNat 0 ++ ds, d < 10 := by
          intro d hd
          rcases List.mem_append.1 hd with hd | hd
          · exact hzero _ d hd
          · exact hds d hd
        have hread := unsignedDecimal_fraction [0] (List.replicate (-n).toNat 0 ++ ds) [] (e := 0)
          (by simp) (by simp) hfraction trivial rfl
        rw [List.append_nil, happend, ← hreplicate, ← List.append_assoc, natOf_append,
          natOf_append, natOf_replicate_zero, List.length_append, List.length_replicate] at hread
        refine hread.trans ?_
        have h0 : natOf [0] = 0 := by decide
        have hexp : (0 : ℤ) - (((-n).toNat + ds.length : ℕ) : ℤ) = n - ds.length := by omega
        rw [h0, hexp]
        simp
      · -- an exponent is written
        rename_i h1 h2 h3
        have hm : (n - 1).natAbs ≠ 0 := by omega
        obtain ⟨hpos, hneg⟩ := exponentPart_digits hm
        have he : exponentPart (101 :: (if n - 1 < 0 then 45 else 43) ::
            digitUnits (digitsOf (n - 1).natAbs)) = some (n - 1) := by
          split
          · rw [hneg]
            congr 1
            omega
          · rw [hpos]
            congr 1
            omega
        have hmark : ∀ r, NoDigit (101 :: r) := fun _ => (by decide : digitVal 101 = none)
        simp only
        split
        · rename_i h4
          have hread := unsignedDecimal_integer _ _ hne hds (hmark _) (by simp) he
          rw [hread, h4]
          rfl
        · rename_i h4
          have htake : ∀ d ∈ ds.take 1, d < 10 := fun d hd => hds d (List.mem_of_mem_take hd)
          have hdrop : ∀ d ∈ ds.drop 1, d < 10 := fun d hd => hds d (List.mem_of_mem_drop hd)
          have htake0 : ds.take 1 ≠ [] := fun h => by
            have := congrArg List.length h
            rw [List.length_take, List.length_nil] at this
            omega
          have hread := unsignedDecimal_fraction _ _ _ htake0 htake hdrop (hmark _) he
          rw [List.take_append_drop, List.length_drop] at hread
          rw [hread]
          congr 3
          omega

/-! ## The shortest digits -/

theorem candidate_sound {x : ℚ} {n : ℤ} {k : ℕ} {s : ℤ} (h : candidate x n k = some s) :
    round? ((s : ℚ) * 10 ^ (n - k)) = some x ∧
      ⌊x * 10 ^ ((k : ℤ) - n)⌋ ≤ s ∧ s ≤ ⌈x * 10 ^ ((k : ℤ) - n)⌉ := by
  have hle := Int.floor_le_ceil (x * 10 ^ ((k : ℤ) - n))
  unfold candidate at h
  simp only at h
  split at h
  · rename_i hok
    split at h
    · cases h
      exact ⟨hok.1, le_refl _, hle⟩
    · split at h
      · cases h
        exact ⟨hok.2, hle, le_refl _⟩
      · split at h
        · cases h
          exact ⟨hok.1, le_refl _, hle⟩
        · cases h
          exact ⟨hok.2, hle, le_refl _⟩
  · split at h
    · rename_i hok
      cases h
      exact ⟨hok, le_refl _, hle⟩
    · split at h
      · rename_i hok
        cases h
        exact ⟨hok, hle, le_refl _⟩
      · cases h

/-- Enough digits give the exact value. -/
theorem candidate_exact {x : ℚ} {n : ℤ} {k : ℕ} {z : ℤ} (hx : round? x = some x)
    (hz : x * 10 ^ ((k : ℤ) - n) = z) : (candidate x n k).isSome := by
  have hback : (z : ℚ) * 10 ^ (n - k) = x := by
    rw [← hz, mul_assoc, ← zpow_add₀ (by norm_num)]
    simp
  unfold candidate
  simp only [hz, Int.floor_intCast, Int.ceil_intCast, hback, hx, and_self, if_true]
  split_ifs <;> rfl

theorem search_succ (x : ℚ) (n : ℤ) (f k : ℕ) :
    search x n (f + 1) k =
      (candidate x n k).elim (search x n f (k + 1)) fun s => some (k, s) := by
  change (match candidate x n k with
    | some s => some (k, s)
    | none => search x n f (k + 1)) = _
  generalize candidate x n k = c
  cases c <;> rfl

theorem search_sound {x : ℚ} {n : ℤ} (f : ℕ) : ∀ {k k' : ℕ} {s : ℤ},
    search x n f k = some (k', s) → k ≤ k' ∧ candidate x n k' = some s := by
  induction f with
  | zero =>
    intro k k' s h
    cases (show none = some (k', s) from h)
  | succ f ih =>
    intro k k' s h
    rw [search_succ] at h
    cases hc : candidate x n k with
    | none =>
      rw [hc] at h
      obtain ⟨hle, hs⟩ := ih h
      exact ⟨by omega, hs⟩
    | some s' =>
      rw [hc] at h
      obtain ⟨rfl, rfl⟩ := Prod.mk.inj (Option.some.inj h)
      exact ⟨le_refl _, hc⟩

theorem search_complete {x : ℚ} {n : ℤ} (f : ℕ) : ∀ {k j : ℕ}, j < f →
    (candidate x n (k + j)).isSome → (search x n f k).isSome := by
  induction f with
  | zero =>
    intro k j hj
    exact absurd hj (Nat.not_lt_zero j)
  | succ f ih =>
    intro k j hj h
    rw [search_succ]
    cases hc : candidate x n k with
    | some s => rfl
    | none =>
      cases j with
      | zero =>
        rw [Nat.add_zero, hc] at h
        exact absurd h (by simp)
      | succ j =>
        have heq : k + (j + 1) = k + 1 + j := by omega
        exact ih (by omega) (heq ▸ h)

theorem digitsOf_length {m k : ℕ} (hk : 1 ≤ k) (hlo : 10 ^ (k - 1) ≤ m) (hhi : m < 10 ^ k) :
    (digitsOf m).length = k := by
  rw [digitsOf, List.length_reverse]
  have h1 := (Nat.digits_length_le_iff (b := 10) (by decide) m).2 hhi
  have h2 := (Nat.lt_digits_length_iff (b := 10) (k := k - 1) (by decide) m).2 hlo
  omega

/-- The candidates for `k` digits have `k` digits, but for the upper bound. -/
theorem candidate_bounds {x : ℚ} {k : ℕ} {s : ℤ} (hpos : 0 < x) (hk : 1 ≤ k)
    (h : candidate x (Int.log 10 x + 1) k = some s) : 10 ^ (k - 1) ≤ s ∧ s ≤ 10 ^ k := by
  have hlo := Int.zpow_log_le_self (b := 10) (by decide) hpos
  have hhi := Int.lt_zpow_succ_log_self (b := 10) (by decide) x
  push_cast at hlo hhi
  obtain ⟨-, hfloor, hceil⟩ := candidate_sound h
  generalize Int.log 10 x = n at hlo hhi hfloor hceil
  have hscale : (0 : ℚ) < 10 ^ ((k : ℤ) - (n + 1)) := zpow_pos (by norm_num) _
  have hlo' : (10 : ℚ) ^ (k - 1) ≤ x * 10 ^ ((k : ℤ) - (n + 1)) := by
    calc (10 : ℚ) ^ (k - 1) = 10 ^ n * 10 ^ ((k : ℤ) - (n + 1)) := by
          rw [← zpow_add₀ (by norm_num), ← zpow_natCast]
          congr 1
          omega
      _ ≤ x * 10 ^ ((k : ℤ) - (n + 1)) := mul_le_mul_of_nonneg_right hlo hscale.le
  have hhi' : x * 10 ^ ((k : ℤ) - (n + 1)) ≤ (10 : ℚ) ^ k := by
    calc x * 10 ^ ((k : ℤ) - (n + 1)) ≤ 10 ^ (n + 1) * 10 ^ ((k : ℤ) - (n + 1)) :=
          mul_le_mul_of_nonneg_right hhi.le hscale.le
      _ = (10 : ℚ) ^ k := by
          rw [← zpow_add₀ (by norm_num), ← zpow_natCast]
          congr 1
          omega
  constructor
  · refine le_trans (Int.le_floor.2 ?_) hfloor
    exact_mod_cast hlo'
  · refine le_trans hceil (Int.ceil_le.2 ?_)
    exact_mod_cast hhi'

theorem search_isSome {x : ℚ} (hpos : 0 < x) (hx : round? x = some x) :
    (search x (Int.log 10 x + 1) (Int.log 10 x + 1 + Nat.log 2 x.den).toNat 1).isSome := by
  obtain ⟨z, hz⟩ := exists_int_mul_ten_pow (isDouble_of_round hx)
  -- the exact value has at least one digit
  have hzpos : 1 ≤ z := by
    have : (0 : ℚ) < z := by
      rw [← hz]
      positivity
    have : (0 : ℤ) < z := by exact_mod_cast this
    omega
  have hn1 : 1 ≤ Int.log 10 x + 1 + Nat.log 2 x.den := by
    have hle : (10 : ℚ) ^ (-(Nat.log 2 x.den : ℤ)) ≤ x := by
      rw [zpow_neg, zpow_natCast, inv_le_iff_one_le_mul₀ (by positivity), hz]
      exact_mod_cast hzpos
    have := (Int.zpow_le_iff_le_log (b := 10) (by decide) hpos).1 (by push_cast; exact hle)
    omega
  generalize Int.log 10 x + 1 = n at hn1 ⊢
  obtain ⟨j, hj⟩ : ∃ j : ℕ, n + Nat.log 2 x.den = 1 + j :=
    ⟨(n + Nat.log 2 x.den - 1).toNat, by omega⟩
  have hfuel : (n + Nat.log 2 x.den).toNat = j + 1 := by omega
  rw [hfuel]
  refine search_complete (j + 1) (Nat.lt_succ_self j) (candidate_exact (z := z) hx ?_)
  have hexp : ((1 + j : ℕ) : ℤ) - n = Nat.log 2 x.den := by omega
  rw [hexp, zpow_natCast, hz]

/-- **The shortest digits read back as the number.** -/
theorem shortest_spec {x : ℚ} (hpos : 0 < x) (hx : round? x = some x) :
    (shortest x).1 ≠ [] ∧ (∀ d ∈ (shortest x).1, d < 10) ∧
      round? ((natOf (shortest x).1 : ℚ) * 10 ^ ((shortest x).2 - (shortest x).1.length)) =
        some x := by
  obtain ⟨⟨k, s⟩, hks⟩ := Option.isSome_iff_exists.1 (search_isSome hpos hx)
  obtain ⟨hk, hs⟩ := search_sound _ hks
  obtain ⟨hlo, hhi⟩ := candidate_bounds hpos hk hs
  have hround := (candidate_sound hs).1
  unfold shortest
  simp only [hks]
  generalize Int.log 10 x + 1 = n at hround ⊢
  by_cases htop : s = 10 ^ k
  · have hlen := digitsOf_length (m := 10 ^ (k - 1)) hk (le_refl _)
      (Nat.pow_lt_pow_right (by decide) (by omega))
    rw [if_pos htop]
    refine ⟨digitsOf_ne_nil (by positivity), digitsOf_lt _, ?_⟩
    simp only [natOf_digitsOf, hlen]
    rw [← hround, htop]
    congr 1
    push_cast
    rw [← zpow_natCast, ← zpow_natCast, ← zpow_add₀ (by norm_num), ← zpow_add₀ (by norm_num)]
    congr 1
    omega
  · have hpow : (0 : ℤ) < 10 ^ (k - 1) := by positivity
    obtain ⟨m, rfl⟩ := Int.eq_ofNat_of_zero_le (show 0 ≤ s by omega)
    have hlo' : 10 ^ (k - 1) ≤ m := by exact_mod_cast hlo
    have hhi' : m < 10 ^ k := by
      refine lt_of_le_of_ne (by exact_mod_cast hhi) fun h => htop ?_
      exact_mod_cast h
    have hm : 0 < 10 ^ (k - 1) := by positivity
    rw [if_neg htop]
    refine ⟨digitsOf_ne_nil (by omega), digitsOf_lt _, ?_⟩
    simp only [Int.toNat_natCast, natOf_digitsOf, digitsOf_length hk hlo' hhi']
    exact_mod_cast hround

/-! ## Reading back -/

/-- What the texts of numbers are written in. -/
def Printed (u : UInt16) : Prop := (∃ d < 10, u = UInt16.ofNat (48 + d)) ∨ u ∈ js ".e+-"

theorem isSpace_of_printed {u : UInt16} (h : Printed u) : isSpace u = false := by
  rcases h with ⟨d, hd, rfl⟩ | h
  · revert d
    decide
  · revert u
    decide

theorem printed_digitUnits {ds : List ℕ} (h : ∀ d ∈ ds, d < 10) : ∀ u ∈ digitUnits ds, Printed u := by
  intro u hu
  obtain ⟨d, hd, rfl⟩ := List.mem_map.1 hu
  exact Or.inl ⟨d, h d hd, rfl⟩

theorem printed_layout {ds : List ℕ} (hds : ∀ d ∈ ds, d < 10) (n : ℤ) :
    ∀ u ∈ layout ds n, Printed u := by
  have hpart : ∀ es : List ℕ, es ⊆ ds → ∀ u ∈ digitUnits es, Printed u := fun es hs =>
    printed_digitUnits fun d hd => hds d (hs hd)
  have hzero : ∀ j, ∀ u ∈ List.replicate j (48 : UInt16), Printed u := fun j u hu =>
    Or.inl ⟨0, by decide, List.eq_of_mem_replicate hu⟩
  have hmark : ∀ u ∈ js ".e+-", Printed u := fun _ => Or.inr
  have hexp : ∀ u ∈ digitUnits (digitsOf (n - 1).natAbs), Printed u :=
    printed_digitUnits (digitsOf_lt _)
  have hall := hpart ds (List.Subset.refl ds)
  have htake := fun m => hpart (ds.take m) (List.take_subset m ds)
  have hdrop := fun m => hpart (ds.drop m) (List.drop_subset m ds)
  have hsign : Printed (if n - 1 < 0 then 45 else 43) := by
    split
    · exact hmark 45 (by decide)
    · exact hmark 43 (by decide)
  unfold layout
  intro u hu
  split_ifs at hu <;> simp only [List.mem_append, List.mem_cons] at hu
  · rcases hu with hu | hu
    · exact hall u hu
    · exact hzero _ u hu
  · rcases hu with hu | rfl | hu
    · exact htake _ u hu
    · exact hmark _ (by decide)
    · exact hdrop _ u hu
  · rcases hu with rfl | rfl | hu | hu
    · exact hzero 1 _ (by decide)
    · exact hmark _ (by decide)
    · exact hzero _ u hu
    · exact hall u hu
  · rcases hu with hu | rfl | rfl | hu
    · exact hall u hu
    · exact hmark _ (by decide)
    · exact hsign
    · exact hexp u hu
  · rcases hu with hu | rfl | hu | rfl | rfl | hu
    · exact htake _ u hu
    · exact hmark _ (by decide)
    · exact hdrop _ u hu
    · exact hmark _ (by decide)
    · exact hsign
    · exact hexp u hu

/-- A printed text starts with a digit. -/
theorem layout_cons {ds : List ℕ} (hne : ds ≠ []) (hds : ∀ d ∈ ds, d < 10) (n : ℤ) :
    ∃ d < 10, ∃ r, layout ds n = UInt16.ofNat (48 + d) :: r := by
  obtain ⟨d, es, rfl⟩ := List.exists_cons_of_ne_nil hne
  have hd : d < 10 := hds d List.mem_cons_self
  unfold layout
  split_ifs with h1 h2 h3 h4
  · exact ⟨d, hd, _, rfl⟩
  · obtain ⟨m, hm⟩ : ∃ m, n.toNat = m + 1 := ⟨n.toNat - 1, by omega⟩
    rw [hm]
    exact ⟨d, hd, _, rfl⟩
  · exact ⟨0, by decide, _, rfl⟩
  · exact ⟨d, hd, _, rfl⟩
  · exact ⟨d, hd, _, rfl⟩

theorem radixPrefix_of_printed {s : JsString} (h : ∀ u ∈ s, Printed u) : radixPrefix s = none := by
  have hmark : ∀ u, Printed u → u ∉ js "xXoObB" := by
    rintro u (⟨d, hd, rfl⟩ | hu)
    · revert d
      decide
    · revert u
      decide
  match s, h with
  | [], _ => rfl
  | [_], _ => rfl
  | z :: x :: r, h =>
    have hx := hmark x (h x (by simp))
    have hunits : js "xXoObB" = [120, 88, 111, 79, 98, 66] := by decide
    rw [hunits] at hx
    simp only [List.mem_cons, List.not_mem_nil, not_or, or_false] at hx
    simp only [radixPrefix, hx, or_self, if_false, ite_self]

/-- A sign and a printed text are read as the number they stand for. -/
theorem stringToNumber_layout {ds : List ℕ} {n : ℤ} {x : Double} (neg : Bool) (hne : ds ≠ [])
    (hds : ∀ d ∈ ds, d < 10)
    (hround : round? ((natOf ds : ℚ) * 10 ^ (n - ds.length)) = some x.val) :
    stringToNumber ((if neg then [45] else []) ++ layout ds n) =
      .fin (if neg then x.neg else x) := by
  have hvalue : ofRat ((natOf ds : ℚ) * 10 ^ (n - ds.length)) = .fin x := by
    unfold ofRat
    split
    · rename_i y hy
      rw [hround] at hy
      exact congrArg JsNum.fin (Double.ext (Option.some.inj hy).symm)
    · rename_i hy
      rw [hround] at hy
      cases hy
  have hread := unsignedDecimal_layout hne hds n
  have hprinted : ∀ u ∈ (if neg then [45] else []) ++ layout ds n, Printed u := by
    intro u hu
    rcases List.mem_append.1 hu with hu | hu
    · cases neg
      · cases hu
      · exact Or.inr (List.mem_singleton.1 hu ▸ by decide)
    · exact printed_layout hds n u hu
  obtain ⟨d, hd, r, hcons⟩ := layout_cons hne hds n
  have hfirst : ∀ d < 10, UInt16.ofNat (48 + d) ≠ 43 ∧ UInt16.ofNat (48 + d) ≠ 45 ∧
      UInt16.ofNat (48 + d) ≠ 73 := by decide
  obtain ⟨hplus, hminus, hinf⟩ := hfirst d hd
  have hsigned : signed ((if neg then [45] else []) ++ layout ds n) = (neg, layout ds n) := by
    rw [hcons]
    cases neg
    · exact (if_neg hplus).trans (if_neg hminus)
    · rfl
  have hnotInf : layout ds n ≠ js "Infinity" := fun h => by
    rw [hcons] at h
    exact hinf (List.cons.inj (h.trans (by decide :
      js "Infinity" = 73 :: [110, 102, 105, 110, 105, 116, 121]))).1
  have hnil : (if neg then [45] else []) ++ layout ds n ≠ [] := by
    rw [hcons]
    simp
  unfold stringToNumber
  simp only [trim_of_noSpace fun u hu => isSpace_of_printed (hprinted u hu)]
  rw [if_neg hnil, radixPrefix_of_printed hprinted]
  simp only [hsigned]
  rw [if_neg hnotInf, hread]
  simp only [hvalue]
  cases neg <;> rfl

/-- **Every number reads back from its own text.** -/
theorem stringToNumber_toString (x : JsNum) : stringToNumber (toString x) = x := by
  cases x with
  | nan => rfl
  | infinity neg => cases neg <;> rfl
  | fin x =>
    have hrepr : ∀ (neg : Bool) (y : Double), 0 < y.val → (if neg then y.neg else y) = x →
        stringToNumber ((if neg then [45] else []) ++ decimalText y.val) = .fin x := by
      intro neg y hy hx
      obtain ⟨hne, hds, hround⟩ := shortest_spec hy y.rep
      rw [decimalText, stringToNumber_layout neg hne hds hround, hx]
    unfold toString
    simp only
    by_cases hzero : x.val = 0
    · rw [if_pos hzero]
      have hround : round? ((natOf [0] : ℚ) * 10 ^ ((1 : ℤ) - [0].length)) = some x.val := by
        have h0 : (natOf [0] : ℚ) = x.val := by
          rw [hzero]
          exact_mod_cast (by decide : natOf [0] = 0)
        rw [h0, List.length_singleton, Nat.cast_one, sub_self, zpow_zero, mul_one, x.rep]
      exact stringToNumber_layout false (by decide) (by decide) hround
    · rw [if_neg hzero]
      by_cases hneg : x.val < 0
      · rw [if_pos hneg]
        exact hrepr true x.neg (neg_pos.2 hneg) (Double.ext (neg_neg x.val))
      · rw [if_neg hneg]
        exact hrepr false x (lt_of_le_of_ne (not_lt.1 hneg) (Ne.symm hzero)) rfl

end SealedSky.Js
